import Preaction.Py.Runtime

/-!
# JSON text in ASCII

`json.dumps` escapes every character outside ASCII unless it is told not to: a
character above `U+FFFF` as the two surrogates of its UTF-16 form. So the text
of a string is the text of its code units, and the two surrogates written one
by one have the text of the character they stand for. The canonical text
`asciiText` therefore has one value only among values whose strings hold no
such pair (`asciiText_inj`), and `json.loads` of a text without surrogates
reads no other (`loads_paired`).
-/

namespace Preaction.Py

/-! ## Code units -/

/-- A surrogate that can start a pair. -/
def isHigh (c : CodePoint) : Bool := 0xD800 ≤ c.val && c.val ≤ 0xDBFF

/-- A surrogate that can end a pair. -/
def isLow (c : CodePoint) : Bool := 0xDC00 ≤ c.val && c.val ≤ 0xDFFF

/-- The UTF-16 code units of a character. -/
def unitsOf (c : CodePoint) : Str :=
  if c.val < 0x10000 then [c]
  else [Fin.ofNat _ (0xD800 + (c.val - 0x10000) / 0x400),
    Fin.ofNat _ (0xDC00 + (c.val - 0x10000) % 0x400)]

/-- The UTF-16 code units of a text. -/
def units (s : Str) : Str := s.flatMap unitsOf

/-- No surrogate pair is written as two characters. -/
def wellPaired : Str → Bool
  | [] => true
  | c :: s => !(isHigh c && s.head?.any isLow) && wellPaired s

/-- The text of some code units. -/
def joinUnits : Str → Str
  | a :: b :: r =>
    if isHigh a && isLow b then
      Fin.ofNat _ (0x10000 + (a.val - 0xD800) * 0x400 + (b.val - 0xDC00)) :: joinUnits r
    else a :: joinUnits (b :: r)
  | s => s

theorem joinUnits_cons {c : CodePoint} {s : Str} (h : (isHigh c && s.head?.any isLow) = false) :
    joinUnits (c :: s) = c :: joinUnits s := by
  cases s with
  | nil => rfl
  | cons d s =>
    have hcd : (isHigh c && isLow d) = false := h
    rw [joinUnits, hcd]
    rfl

/-- The surrogates of a character above `U+FFFF` are a pair. -/
theorem unitsOf_astral {c : CodePoint} (h : ¬ c.val < 0x10000) :
    ∃ a b : CodePoint, unitsOf c = [a, b] ∧ a.val = 0xD800 + (c.val - 0x10000) / 0x400 ∧
      b.val = 0xDC00 + (c.val - 0x10000) % 0x400 := by
  have hlt := c.isLt
  refine ⟨_, _, by rw [unitsOf, if_neg h], ?_, ?_⟩
  · rw [Fin.val_ofNat, Nat.mod_eq_of_lt (by omega)]
  · rw [Fin.val_ofNat, Nat.mod_eq_of_lt (by omega)]

theorem units_cons (c : CodePoint) (s : Str) : units (c :: s) = unitsOf c ++ units s :=
  List.flatMap_cons

/-- A text whose first code unit ends a pair starts with it. -/
theorem head_units_low {s : Str} (h : (units s).head?.any isLow = true) :
    s.head?.any isLow = true := by
  cases s with
  | nil => exact h
  | cons c s =>
    have hlt := c.isLt
    rw [units_cons] at h
    by_cases hc : c.val < 0x10000
    · rw [unitsOf, if_pos hc] at h
      exact h
    · -- a character above `U+FFFF` starts with a high surrogate
      obtain ⟨a, b, hab, ha, -⟩ := unitsOf_astral hc
      rw [hab, List.cons_append, List.head?_cons, Option.any_some, isLow, ha, Bool.and_eq_true,
        decide_eq_true_eq, decide_eq_true_eq] at h
      omega

theorem joinUnits_units {s : Str} (h : wellPaired s = true) : joinUnits (units s) = s := by
  induction s with
  | nil => rfl
  | cons c s ih =>
    rw [wellPaired, Bool.and_eq_true, Bool.not_eq_true'] at h
    obtain ⟨hpair, hs⟩ := h
    have hlt := c.isLt
    rw [units_cons]
    by_cases hc : c.val < 0x10000
    · rw [unitsOf, if_pos hc, List.singleton_append, joinUnits_cons, ih hs]
      by_contra hne
      rw [Bool.not_eq_false, Bool.and_eq_true] at hne
      rw [hne.1, head_units_low hne.2] at hpair
      cases hpair
    · obtain ⟨a, b, hab, ha, hb⟩ := unitsOf_astral hc
      have habp : (isHigh a && isLow b) = true := by
        simp only [isHigh, isLow, ha, hb, Bool.and_eq_true, decide_eq_true_eq]
        omega
      rw [hab, List.cons_append, List.singleton_append, joinUnits, if_pos habp, ih hs, ha, hb]
      refine congrArg (· :: s) (Fin.ext ?_)
      rw [Fin.val_ofNat, Nat.mod_eq_of_lt (by omega)]
      omega

/-- Every character is its own code unit, and none is a surrogate. -/
def Plain (s : Str) : Prop := s.all (fun c => c.val < 0xD800) = true

instance (s : Str) : Decidable (Plain s) := inferInstanceAs (Decidable (_ = _))

theorem plain_cons {c : CodePoint} {s : Str} : Plain (c :: s) ↔ c.val < 0xD800 ∧ Plain s := by
  simp [Plain]

theorem units_of_plain {s : Str} (h : Plain s) : units s = s := by
  induction s with
  | nil => rfl
  | cons c s ih =>
    obtain ⟨hc, hs⟩ := plain_cons.mp h
    rw [units_cons, ih hs, unitsOf, if_pos (by omega), List.singleton_append]

/-- No other text has the code units of a plain one. -/
theorem eq_of_units_eq_plain {s t : Str} (ht : Plain t) (h : units s = t) : s = t := by
  induction s generalizing t with
  | nil => exact h
  | cons c s ih =>
    rw [units_cons] at h
    by_cases hc : c.val < 0x10000
    · rw [unitsOf, if_pos hc, List.singleton_append] at h
      subst h
      rw [← ih (plain_cons.mp ht).2 rfl]
    · -- a surrogate is not plain
      obtain ⟨a, b, hab, ha, -⟩ := unitsOf_astral hc
      rw [hab, List.cons_append] at h
      subst h
      have := (plain_cons.mp ht).1
      omega

/-! ## Quoting -/

/-- One code unit inside a JSON string in ASCII. -/
def escapeUnit (c : CodePoint) : Str :=
  if 0x7F ≤ c.val ∧ c.val < 0x10000 then
    [ofChar '\\', ofChar 'u', hexDigit (c.val / 4096), hexDigit (c.val / 256 % 16),
      hexDigit (c.val / 16 % 16), hexDigit (c.val % 16)]
  else escapeChar false c

/-- A quoted JSON string in ASCII, of the code units. -/
def quoteUnits (s : Str) : Str := ofChar '"' :: (s.flatMap escapeUnit ++ [ofChar '"'])

theorem unescapeChar_escapeUnit (c : CodePoint) (r : Str) :
    unescapeChar (escapeUnit c ++ r) = some (c, r) := by
  unfold escapeUnit
  split
  next h =>
    show Option.map (·, r) (hex4 _ _ _ _) = _
    rw [hex4_hexDigit h.2, Option.map_some]
  next => exact unescapeChar_escapeChar false c r

theorem quotes_quoteUnits : Quotes quoteUnits where
  head _ := ⟨_, rfl⟩
  inj := quoted_append_inj unescapeChar_escapeUnit

/-! ## Values -/

namespace Json

mutual
/-- The value with each of its texts, keys too, replaced. -/
def mapStr (g : Str → Str) : Json → Json
  | .str s => .str (g s)
  | .arr xs => .arr (mapStrList g xs)
  | .obj kvs => .obj (mapStrKvs g kvs)
  | j => j

def mapStrList (g : Str → Str) : List Json → List Json
  | [] => []
  | x :: xs => mapStr g x :: mapStrList g xs

def mapStrKvs (g : Str → Str) : List (Str × Json) → List (Str × Json)
  | [] => []
  | (k, x) :: kvs => (g k, mapStr g x) :: mapStrKvs g kvs
end

mutual
/-- No text in the value holds a surrogate pair written as two characters. -/
def paired : Json → Bool
  | .str s => wellPaired s
  | .arr xs => pairedList xs
  | .obj kvs => pairedKvs kvs
  | _ => true

def pairedList : List Json → Bool
  | [] => true
  | x :: xs => paired x && pairedList xs

def pairedKvs : List (Str × Json) → Bool
  | [] => true
  | (k, x) :: kvs => wellPaired k && paired x && pairedKvs kvs
end

theorem pairedList_iff {xs : List Json} : pairedList xs = true ↔ ∀ x ∈ xs, x.paired = true := by
  induction xs with
  | nil => simp [pairedList]
  | cons x xs ih => simp [pairedList, ih]

theorem pairedKvs_iff {kvs : List (Str × Json)} :
    pairedKvs kvs = true ↔ ∀ kv ∈ kvs, wellPaired kv.1 = true ∧ kv.2.paired = true := by
  induction kvs with
  | nil => simp [pairedKvs]
  | cons kv kvs ih => simp [pairedKvs, ih]

theorem mapStrList_units {xs : List Json}
    (ih : ∀ x ∈ xs, (x.mapStr units).mapStr joinUnits = x) :
    mapStrList joinUnits (mapStrList units xs) = xs := by
  induction xs with
  | nil => rfl
  | cons x xs ihxs =>
    obtain ⟨hx, hxs⟩ := List.forall_mem_cons.mp ih
    rw [mapStrList, mapStrList, hx, ihxs hxs]

theorem mapStrKvs_units {kvs : List (Str × Json)} (hk : ∀ kv ∈ kvs, wellPaired kv.1 = true)
    (ih : ∀ kv ∈ kvs, (kv.2.mapStr units).mapStr joinUnits = kv.2) :
    mapStrKvs joinUnits (mapStrKvs units kvs) = kvs := by
  induction kvs with
  | nil => rfl
  | cons kv kvs ihkvs =>
    obtain ⟨k, x⟩ := kv
    obtain ⟨hk, hks⟩ := List.forall_mem_cons.mp hk
    obtain ⟨hx, hxs⟩ := List.forall_mem_cons.mp ih
    rw [mapStrKvs, mapStrKvs, joinUnits_units hk, hx, ihkvs hks hxs]

/-- The code units of the texts give the texts back. -/
theorem mapStr_units {a : Json} (h : a.paired = true) :
    (a.mapStr units).mapStr joinUnits = a := by
  induction a with
  | str s => rw [mapStr, mapStr, joinUnits_units h]
  | arr xs ih =>
    rw [paired, pairedList_iff] at h
    rw [mapStr, mapStr, mapStrList_units fun x hx => ih x hx (h x hx)]
  | obj kvs ih =>
    rw [paired, pairedKvs_iff] at h
    rw [mapStr, mapStr, mapStrKvs_units (fun kv hkv => (h kv hkv).1)
      fun kv hkv => ih kv hkv (h kv hkv).2]
  | _ => rfl

/-- Under a plain key, the values of the code units are the code units of the value. -/
theorem lookup_mapStrKvs {k : Str} (hk : Plain k) (kvs : List (Str × Json)) :
    (mapStrKvs units kvs).lookup k = (kvs.lookup k).map (mapStr units) := by
  induction kvs with
  | nil => rfl
  | cons kv kvs ih =>
    obtain ⟨l, v⟩ := kv
    have hkey : k = units l ↔ k = l :=
      ⟨fun h => (eq_of_units_eq_plain hk h.symm).symm, fun h => h ▸ (units_of_plain hk).symm⟩
    rw [mapStrKvs, lookup_cons_if, lookup_cons_if, ih]
    simp only [hkey]
    split <;> rfl

/-- A member of the code units of a value. -/
theorem find_mapStr_normWith {k : Str} (hk : Plain k) (a : Json) :
    ((normWith id a).mapStr units).find k = (normWith id (a.find k)).mapStr units := by
  cases a with
  | obj kvs =>
    change ((mapStrKvs units (sortKvs (normKvs id kvs))).lookup k).getD .null =
      (normWith id ((kvs.lookup k).getD .null)).mapStr units
    rw [lookup_mapStrKvs hk, lookup_sortKvs, lookup_normKvs]
    cases kvs.lookup k <;> rfl
  | _ => rfl

/-- Sorting the keys adds no text. -/
theorem paired_normWith {a : Json} (h : a.paired = true) : (normWith id a).paired = true := by
  induction a with
  | arr xs ih =>
    rw [paired, pairedList_iff] at h
    rw [normWith, paired, pairedList_iff, normList_eq_map, List.forall_mem_map]
    exact fun x hx => ih x hx (h x hx)
  | obj kvs ih =>
    rw [paired, pairedKvs_iff] at h
    rw [normWith, paired, pairedKvs_iff]
    intro kv hkv
    have hmem := mem_of_mem_sortKvs hkv
    rw [normKvs_eq_map, List.mem_map] at hmem
    obtain ⟨lv, hlv, rfl⟩ := hmem
    exact ⟨(h lv hlv).1, ih lv hlv (h lv hlv).2⟩
  | _ => exact h

end Json

/-! ## What a reader leaves of a text -/

theorem Scalar.of_suffix {s r : Str} (hs : Scalar s) (h : r <:+ s) : Scalar r := by
  obtain ⟨p, rfl⟩ := h
  exact (scalar_append.mp hs).2

theorem skipWs_suffix (s : Str) : skipWs s <:+ s := by
  induction s with
  | nil => exact List.suffix_refl _
  | cons c r ih =>
    rw [skipWs]
    split
    · exact ih.trans (List.suffix_cons c r)
    · exact List.suffix_refl _

theorem stripPrefix_suffix {t s r : Str} (h : stripPrefix t s = some r) : r <:+ s := by
  induction t generalizing s with
  | nil =>
    obtain rfl := Option.some.inj h
    exact List.suffix_refl _
  | cons c t ih =>
    cases s with
    | nil => cases h
    | cons d s =>
      rw [stripPrefix] at h
      split at h
      · exact (ih h).trans (List.suffix_cons d s)
      · cases h

theorem spanDigits_suffix (s : Str) : (spanDigits s).2 <:+ s := by
  induction s with
  | nil => exact List.suffix_refl _
  | cons c r ih =>
    rw [spanDigits]
    split
    · exact ih.trans (List.suffix_cons c r)
    · exact List.suffix_refl _

theorem rest_suffix {s rest : Str} {ds : List Nat} (h : spanDigits s = (ds, rest)) :
    rest <:+ s := by
  have hs := spanDigits_suffix s
  rwa [h] at hs

theorem readFrac_suffix (s : Str) : (readFrac s).2 <:+ s := by
  cases s with
  | nil => exact List.suffix_refl _
  | cons c r =>
    rw [readFrac]
    split
    · split
      · exact List.suffix_refl _
      next ds rest _ heq => exact (rest_suffix heq).trans (List.suffix_cons c r)
    · exact List.suffix_refl _

/-- What a sign leaves of the text it can start. -/
theorem signed_suffix (s : Str) :
    (match s with
      | d :: r' => if d.val = 0x2D then (true, r') else if d.val = 0x2B then (false, r')
        else (false, d :: r')
      | [] => (false, [])).2 <:+ s := by
  cases s with
  | nil => exact List.suffix_refl _
  | cons d r =>
    dsimp only
    split
    · exact List.suffix_cons d r
    split
    · exact List.suffix_cons d r
    · exact List.suffix_refl _

theorem readExp_suffix (s : Str) : (readExp s).2 <:+ s := by
  cases s with
  | nil => exact List.suffix_refl _
  | cons c r =>
    unfold readExp
    dsimp only
    split
    · split
      · exact List.suffix_refl _
      next ds rest _ heq =>
        exact ((rest_suffix heq).trans (signed_suffix r)).trans (List.suffix_cons c r)
    · exact List.suffix_refl _

theorem readNum_suffix {s r : Str} {l : NumLexeme} (h : readNum s = some (l, r)) : r <:+ s := by
  have hminus : (match s with
      | c :: r => if c.val = 0x2D then (true, r) else (false, c :: r)
      | [] => (false, [])).2 <:+ s := by
    cases s with
    | nil => exact List.suffix_refl _
    | cons c s =>
      dsimp only
      split
      · exact List.suffix_cons c s
      · exact List.suffix_refl _
  have htail (rest : Str) : (readExp (readFrac rest).2).2 <:+ rest :=
    (readExp_suffix _).trans (readFrac_suffix rest)
  unfold readNum at h
  rw [Option.map_eq_some_iff] at h
  obtain ⟨⟨ds, rest⟩, hint, h⟩ := h
  obtain rfl : (readExp (readFrac rest).2).2 = r := (Prod.mk.inj h).2
  refine (htail rest).trans (List.IsSuffix.trans ?_ hminus)
  split at hint
  · cases hint
  · rw [← (Prod.mk.inj (Option.some.inj hint)).2]
    exact List.drop_suffix 1 _
  next ds' rest' _ _ heq =>
    rw [← (Prod.mk.inj (Option.some.inj hint)).2]
    exact rest_suffix heq

theorem readConstant_float {s r : Str} {v : Json} (h : readConstant s = some (v, r)) :
    (∃ x, v = .float x) ∧ r <:+ s := by
  unfold readConstant at h
  split at h
  next r' hr' =>
    obtain ⟨rfl, rfl⟩ := Prod.mk.inj (Option.some.inj h)
    exact ⟨⟨_, rfl⟩, stripPrefix_suffix hr'⟩
  split at h
  next r' hr' =>
    obtain ⟨rfl, rfl⟩ := Prod.mk.inj (Option.some.inj h)
    exact ⟨⟨_, rfl⟩, stripPrefix_suffix hr'⟩
  next =>
    obtain ⟨r', hr', h⟩ := Option.map_eq_some_iff.mp h
    obtain ⟨rfl, rfl⟩ := Prod.mk.inj h
    exact ⟨⟨_, rfl⟩, stripPrefix_suffix hr'⟩

/-! ## What a reader makes of a text without surrogates -/

theorem wellPaired_cons {c : CodePoint} {s : Str} (hc : isHigh c = true → s.head?.any isLow = false)
    (hs : wellPaired s = true) : wellPaired (c :: s) = true := by
  rw [wellPaired, hs, Bool.and_true, Bool.not_eq_true']
  cases h : isHigh c with
  | false => rfl
  | true => rw [hc h]; rfl

theorem isHigh_of_not_surrogate {c : CodePoint} (h : isSurrogate c = false) :
    isHigh c = false ∧ isLow c = false := by
  simp only [isSurrogate, isHigh, isLow, Bool.and_eq_false_iff, decide_eq_false_iff_not] at h ⊢
  omega

theorem shortEscape_not_surrogate {c d : CodePoint} (h : shortEscape c = some d) :
    isSurrogate d = false := by
  unfold shortEscape at h
  split at h
  next hc =>
    obtain rfl := Option.some.inj h
    simp only [isSurrogate, Bool.and_eq_false_iff, decide_eq_false_iff_not]
    omega
  split at h; · obtain rfl := Option.some.inj h; decide
  split at h; · obtain rfl := Option.some.inj h; decide
  split at h; · obtain rfl := Option.some.inj h; decide
  split at h; · obtain rfl := Option.some.inj h; decide
  split at h; · obtain rfl := Option.some.inj h; decide
  cases h

/-- The text goes on with an escaped surrogate that can end a pair. -/
def EscapesLow (s : Str) : Prop :=
  ∃ x y a b e f r lo, s = x :: y :: a :: b :: e :: f :: r ∧ x.val = 0x5C ∧ y.val = 0x75 ∧
    hex4 a b e f = some lo ∧ isLow lo = true

/-- What is read of the body of a string without surrogates: a text without a
split pair, which starts with a low surrogate only where one is escaped. -/
structure ReadsPaired (s t rest : Str) : Prop where
  paired : wellPaired t = true
  head : t.head?.any isLow = true → EscapesLow s
  scalar : Scalar rest

/-- One more character in front of what is read of `r`. -/
theorem ReadsPaired.cons {s r t rest : Str} {c : CodePoint} {m : Option (Str × Str)}
    (hm : ∀ t rest, m = some (t, rest) → ReadsPaired r t rest)
    (h : (m.map fun (s, rest) => (c :: s, rest)) = some (t, rest))
    (hc : isHigh c = true → ¬ EscapesLow r) (hlow : isLow c = true → EscapesLow s) :
    ReadsPaired s t rest := by
  obtain ⟨⟨t', rest'⟩, hread, heq⟩ := Option.map_eq_some_iff.mp h
  obtain ⟨rfl, rfl⟩ := Prod.mk.inj heq
  have hr := hm t' rest' hread
  refine ⟨wellPaired_cons (fun hhigh => ?_) hr.paired, hlow, hr.scalar⟩
  rw [Bool.eq_false_iff]
  exact fun hhead => hc hhigh (hr.head hhead)

/-- The same where the character is no surrogate. -/
theorem ReadsPaired.cons_scalar {s r t rest : Str} {c : CodePoint} {m : Option (Str × Str)}
    (hm : ∀ t rest, m = some (t, rest) → ReadsPaired r t rest)
    (h : (m.map fun (s, rest) => (c :: s, rest)) = some (t, rest))
    (hc : isSurrogate c = false) : ReadsPaired s t rest := by
  obtain ⟨hhigh, hlow⟩ := isHigh_of_not_surrogate hc
  refine ReadsPaired.cons hm h ?_ ?_
  · rw [hhigh]
    exact nofun
  · rw [hlow]
    exact nofun

theorem readString_paired {fuel : Nat} {s t rest : Str} (hs : Scalar s)
    (h : readString fuel s = some (t, rest)) : ReadsPaired s t rest := by
  induction fuel generalizing s t rest with
  | zero => cases h
  | succ fuel ih =>
    have hread {r : Str} (hr : Scalar r) (t rest : Str)
        (h : readString fuel r = some (t, rest)) : ReadsPaired r t rest := ih hr h
    cases s with
    | nil => cases h
    | cons c r =>
      obtain ⟨hc, hr⟩ := scalar_cons.mp hs
      rw [readString.eq_def] at h
      dsimp only at h
      split at h
      · -- the closing quote
        obtain ⟨rfl, rfl⟩ := Prod.mk.inj (Option.some.inj h)
        exact ⟨rfl, nofun, hr⟩
      split at h
      · cases h
      split at h
      next hback =>
        split at h
        · cases h
        next d r' =>
        obtain ⟨hd, hr'⟩ := scalar_cons.mp hr
        split at h
        next hu =>
          split at h
          next a b e f r4 =>
            have hr4 : Scalar r4 := hr'.of_suffix ⟨[a, b, e, f], rfl⟩
            split at h
            · cases h
            next hi hhex =>
            have hlow : isLow hi = true → EscapesLow (c :: d :: a :: b :: e :: f :: r4) :=
              fun hl => ⟨c, d, a, b, e, f, r4, hi, rfl, hback, hu, hhex, hl⟩
            split at h
            next hhigh =>
              split at h
              next x y a' b' e' f' r5 =>
                have hr5 : Scalar r5 := hr4.of_suffix ⟨[x, y, a', b', e', f'], rfl⟩
                -- what follows is no escaped low surrogate, unless it is read with `hi`
                split at h
                next hxy =>
                  split at h
                  · cases h
                  next lo hlo =>
                  split at h
                  next hrange =>
                    refine ReadsPaired.cons_scalar (hread hr5) h ?_
                    have := hi.isLt
                    have := lo.isLt
                    simp only [isSurrogate, Fin.val_ofNat, Bool.and_eq_false_iff,
                      decide_eq_false_iff_not]
                    omega
                  next hrange =>
                    refine ReadsPaired.cons (hread hr4) h (fun _ hesc => ?_) hlow
                    obtain ⟨_, _, _, _, _, _, _, lo', heq, -, -, hlo', hl⟩ := hesc
                    simp only [List.cons.injEq] at heq
                    obtain ⟨-, -, rfl, rfl, rfl, rfl, -⟩ := heq
                    obtain rfl := Option.some.inj (hlo.symm.trans hlo')
                    exact hrange (by simpa [isLow] using hl)
                next hxy =>
                  refine ReadsPaired.cons (hread hr4) h (fun _ hesc => ?_) hlow
                  obtain ⟨_, _, _, _, _, _, _, _, heq, hx, hy, -⟩ := hesc
                  simp only [List.cons.injEq] at heq
                  obtain ⟨rfl, rfl, -⟩ := heq
                  exact hxy ⟨hx, hy⟩
              next hshort =>
                refine ReadsPaired.cons (hread hr4) h (fun _ hesc => ?_) hlow
                obtain ⟨x, y, a', b', e', f', r5, lo, rfl, -⟩ := hesc
                exact hshort _ _ _ _ _ _ _ rfl
            next hnot =>
              refine ReadsPaired.cons (hread hr4) h (fun hh => absurd ?_ hnot) hlow
              simpa [isHigh] using hh
          next => cases h
        next =>
          split at h
          · exact ReadsPaired.cons_scalar (hread hr') h hd
          next =>
            split at h
            · cases h
            next e he => exact ReadsPaired.cons_scalar (hread hr') h (shortEscape_not_surrogate he)
      next => exact ReadsPaired.cons_scalar (hread hr) h hc

theorem readScalar_paired {d : Dialect} (hd : ∀ l v, d.num l = some v → v.paired = true)
    {s rest : Str} {v : Json} (h : readScalar d s = some (v, rest)) :
    v.paired = true ∧ rest <:+ s := by
  unfold readScalar at h
  split at h
  next r hr =>
    obtain ⟨rfl, rfl⟩ := Prod.mk.inj (Option.some.inj h)
    exact ⟨rfl, stripPrefix_suffix hr⟩
  split at h
  next r hr =>
    obtain ⟨rfl, rfl⟩ := Prod.mk.inj (Option.some.inj h)
    exact ⟨rfl, stripPrefix_suffix hr⟩
  split at h
  next r hr =>
    obtain ⟨rfl, rfl⟩ := Prod.mk.inj (Option.some.inj h)
    exact ⟨rfl, stripPrefix_suffix hr⟩
  split at h
  next l r hr =>
    obtain ⟨w, hw, h⟩ := Option.map_eq_some_iff.mp h
    obtain ⟨rfl, rfl⟩ := Prod.mk.inj h
    exact ⟨hd l w hw, readNum_suffix hr⟩
  next =>
    split at h
    · obtain ⟨⟨x, rfl⟩, hrest⟩ := readConstant_float h
      exact ⟨rfl, hrest⟩
    · cases h

/-- What the three readers of the grammar make of a text without surrogates, with
`fuel` steps left. -/
structure ReadersPaired (d : Dialect) (fuel : Nat) : Prop where
  value : ∀ s v rest, Scalar s → readValue d fuel s = some (v, rest) →
    v.paired = true ∧ Scalar rest
  elems : ∀ s xs rest, Scalar s → readElems d fuel s = some (xs, rest) →
    Json.pairedList xs = true ∧ Scalar rest
  members : ∀ s kvs out rest, Scalar s → Json.pairedKvs kvs = true →
    readMembers d fuel kvs s = some (out, rest) → Json.pairedKvs out = true ∧ Scalar rest

theorem pairedKvs_setKey {k : Str} {v : Json} {kvs : List (Str × Json)}
    (hkvs : Json.pairedKvs kvs = true) (hk : wellPaired k = true) (hv : v.paired = true) :
    Json.pairedKvs (setKey k v kvs) = true := by
  rw [Json.pairedKvs_iff] at hkvs ⊢
  intro kv hkv
  rcases mem_of_mem_setKey hkv with rfl | hkv
  · exact ⟨hk, hv⟩
  · exact hkvs kv hkv

theorem readersPaired {d : Dialect} (hd : ∀ l v, d.num l = some v → v.paired = true)
    (fuel : Nat) : ReadersPaired d fuel := by
  induction fuel with
  | zero => exact ⟨nofun, nofun, nofun⟩
  | succ fuel ih =>
    refine ⟨?_, ?_, ?_⟩
    · intro s v rest hs h
      unfold readValue at h
      have hskip := hs.of_suffix (skipWs_suffix s)
      split at h
      · cases h
      next c r heq =>
      rw [heq] at hskip
      obtain ⟨hc, hr⟩ := scalar_cons.mp hskip
      split at h
      · obtain ⟨⟨t, rest'⟩, ht, h⟩ := Option.map_eq_some_iff.mp h
        obtain ⟨rfl, rfl⟩ := Prod.mk.inj h
        have := readString_paired hr ht
        exact ⟨this.paired, this.scalar⟩
      split at h
      · have hskip := hr.of_suffix (skipWs_suffix r)
        split at h
        next c' r' heq =>
          rw [heq] at hskip
          split at h
          · obtain ⟨rfl, rfl⟩ := Prod.mk.inj (Option.some.inj h)
            exact ⟨rfl, (scalar_cons.mp hskip).2⟩
          · obtain ⟨⟨xs, rest'⟩, hxs, h⟩ := Option.map_eq_some_iff.mp h
            obtain ⟨rfl, rfl⟩ := Prod.mk.inj h
            exact ih.elems _ _ _ hskip hxs
        next => cases h
      split at h
      · have hskip := hr.of_suffix (skipWs_suffix r)
        split at h
        next c' r' heq =>
          rw [heq] at hskip
          split at h
          · obtain ⟨rfl, rfl⟩ := Prod.mk.inj (Option.some.inj h)
            exact ⟨rfl, (scalar_cons.mp hskip).2⟩
          · obtain ⟨⟨kvs, rest'⟩, hkvs, h⟩ := Option.map_eq_some_iff.mp h
            obtain ⟨rfl, rfl⟩ := Prod.mk.inj h
            exact ih.members _ _ _ _ hskip rfl hkvs
        next => cases h
      · obtain ⟨hv, hrest⟩ := readScalar_paired hd h
        exact ⟨hv, hskip.of_suffix hrest⟩
    · intro s xs rest hs h
      unfold readElems at h
      split at h
      · cases h
      next x rest' hx =>
      obtain ⟨hx, hrest⟩ := ih.value _ _ _ hs hx
      have hskip := hrest.of_suffix (skipWs_suffix rest')
      split at h
      next c r heq =>
        rw [heq] at hskip
        obtain ⟨-, hr⟩ := scalar_cons.mp hskip
        split at h
        · obtain ⟨⟨ys, rest''⟩, hys, h⟩ := Option.map_eq_some_iff.mp h
          obtain ⟨rfl, rfl⟩ := Prod.mk.inj h
          obtain ⟨hys, hrest⟩ := ih.elems _ _ _ hr hys
          exact ⟨by rw [Json.pairedList, hx, hys]; rfl, hrest⟩
        split at h
        · obtain ⟨rfl, rfl⟩ := Prod.mk.inj (Option.some.inj h)
          exact ⟨by rw [Json.pairedList, hx]; rfl, hr⟩
        · cases h
      next => cases h
    · intro s kvs out rest hs hkvs h
      unfold readMembers at h
      have hskip := hs.of_suffix (skipWs_suffix s)
      split at h
      next q r heq =>
        rw [heq] at hskip
        obtain ⟨-, hr⟩ := scalar_cons.mp hskip
        split at h
        next =>
          split at h
          · cases h
          next k rest₁ hk =>
          have hk := readString_paired hr hk
          have hskip := hk.scalar.of_suffix (skipWs_suffix rest₁)
          split at h
          next c rest₂ heq =>
            rw [heq] at hskip
            obtain ⟨-, hr⟩ := scalar_cons.mp hskip
            split at h
            next =>
              split at h
              · cases h
              next v rest₃ hv =>
              obtain ⟨hv, hrest⟩ := ih.value _ _ _ hr hv
              have hskip := hrest.of_suffix (skipWs_suffix rest₃)
              have hset := pairedKvs_setKey hkvs hk.paired hv
              split at h
              next c r heq =>
                rw [heq] at hskip
                obtain ⟨-, hr⟩ := scalar_cons.mp hskip
                split at h
                · exact ih.members _ _ _ _ hr hset h
                split at h
                · obtain ⟨rfl, rfl⟩ := Prod.mk.inj (Option.some.inj h)
                  exact ⟨hset, hr⟩
                · cases h
              next => cases h
            next => cases h
          next => cases h
        next => cases h
      next => cases h

namespace Runtime

variable (R : Runtime)

/-- `json.dumps(o, sort_keys=True, separators=(",", ":"))` -/
def asciiText (o : Json) : Str :=
  printWith quoteUnits R.dumpsFormat ((Json.normWith id o).mapStr units)

variable {R} in
/-- Members of two values with one text have the code units of one value. -/
theorem asciiText_find (hf : R.dumpsFormat.Lawful) {a b : Json} {k : Str} (hk : Plain k)
    (h : R.asciiText a = R.asciiText b) :
    (Json.normWith id (a.find k)).mapStr units = (Json.normWith id (b.find k)).mapStr units := by
  have hunits := printWith_injective quotes_quoteUnits hf h
  rw [← Json.find_mapStr_normWith hk, hunits, Json.find_mapStr_normWith hk]

variable {R} in
/-- One text, one value up to key order, when every pair of surrogates is one character. -/
theorem asciiText_inj (hf : R.dumpsFormat.Lawful) {a b : Json} (ha : a.paired = true)
    (hb : b.paired = true) (h : R.asciiText a = R.asciiText b) : Json.SameValue a b := by
  have hunits := printWith_injective quotes_quoteUnits hf h
  have := congrArg (Json.mapStr joinUnits) hunits
  rwa [Json.mapStr_units (Json.paired_normWith ha), Json.mapStr_units (Json.paired_normWith hb)]
    at this

variable {R} in
/-- What is read from a text without surrogates holds no split pair. -/
theorem loads_paired {t : Str} {v : Json} (ht : Scalar t) (h : R.loads t = some v) :
    v.paired = true := by
  have hnum : ∀ l w, (pythonDialect R.maxStrDigits).num l = some w → w.paired = true := by
    intro l w hw
    unfold pythonDialect at hw
    dsimp only at hw
    split at hw
    · split at hw
      · cases hw
      · obtain rfl := Option.some.inj hw
        rfl
    · obtain rfl := Option.some.inj hw
      rfl
  unfold loads parse at h
  split at h
  next j rest hj =>
    split at h
    · obtain rfl := Option.some.inj h
      exact ((readersPaired hnum _).value _ _ _ ht hj).1
    · cases h
  next => cases h

end Runtime

end Preaction.Py
