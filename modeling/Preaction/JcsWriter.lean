import Preaction.Lib.Loop
import Preaction.Py.Ecma
import Preaction.Py.KeyOrder
import Preaction.Rfc8785

/-!
# What a canonicalizer writes

The repository has several canonicalizers that differ in their numbers only. `write`
is one with the numbers left open. Where it returns, its text is that of the value
with its keys in the order of their code units (`write_eq`), and it returns where no
key has a lone surrogate and every number has a text (`of_write_ok`). So two of them
give the same texts of a value where they give the same tokens of its numbers
(`write_agree_iff`): a token ends before any character that can stand behind it.
-/

namespace Preaction.Rfc8785

open Preaction.Py Preaction.Loop

/-! ## The parts of a value -/

/-- What a value holds: itself, and what its elements or the values its keys are bound
to hold. -/
inductive Within (w : Json) : Json → Prop
  | refl : Within w w
  | elem {x : Json} {xs : List Json} (hx : x ∈ xs) (h : Within w x) : Within w (.arr xs)
  | member {k : Str} {x : Json} {kvs : List (Str × Json)} (hx : kvs.lookup k = some x)
      (h : Within w x) : Within w (.obj kvs)

def isNumber : Json → Bool
  | .int _ | .float _ => true
  | _ => false

/-- No key of an object within the value has a lone surrogate. -/
def ScalarKeys (v : Json) : Prop :=
  ∀ kvs, Within (.obj kvs) v → ∀ k ∈ kvs.map (·.1), Scalar k

/-! ## The writer -/

mutual
/-- A canonicalizer whose numbers `num` writes. -/
def write (num : Json → Except PyError Str) : Json → Except PyError Str
  | .null => .ok (lit "null")
  | .bool true => .ok (lit "true")
  | .bool false => .ok (lit "false")
  | .int n => num (.int n)
  | .float x => num (.float x)
  | .str s => .ok (jsString s)
  | .arr xs => return lit "[" ++ joinComma (← writeList num xs) ++ lit "]"
  | .obj kvs => jcsMembers (writeKvs num kvs)

def writeList (num : Json → Except PyError Str) : List Json → Except PyError (List Str)
  | [] => .ok []
  | x :: xs => return (← write num x) :: (← writeList num xs)

def writeKvs (num : Json → Except PyError Str) :
    List (Str × Json) → List (Str × Except PyError Str)
  | [] => []
  | (k, v) :: kvs => (k, write num v) :: writeKvs num kvs
end

mutual
/-- A value with its keys in the order of their code units. -/
def jcsForm : Json → Json
  | .arr xs => .arr (jcsFormList xs)
  | .obj kvs => .obj (Ecma.sortUnits (sortKvs (jcsFormKvs kvs)))
  | j => j

def jcsFormList : List Json → List Json
  | [] => []
  | x :: xs => jcsForm x :: jcsFormList xs

def jcsFormKvs : List (Str × Json) → List (Str × Json)
  | [] => []
  | (k, x) :: xs => (k, jcsForm x) :: jcsFormKvs xs
end

mutual
/-- The text of a value, bindings in list order, whose numbers are `tok`. -/
def formText (tok : Json → Str) : Json → Str
  | .null => lit "null"
  | .bool true => lit "true"
  | .bool false => lit "false"
  | .int n => tok (.int n)
  | .float x => tok (.float x)
  | .str s => jsString s
  | .arr xs => lit "[" ++ joinComma (formTexts tok xs) ++ lit "]"
  | .obj kvs => lit "\x7b" ++ joinComma (memberTexts tok kvs) ++ lit "\x7d"

def formTexts (tok : Json → Str) : List Json → List Str
  | [] => []
  | x :: xs => formText tok x :: formTexts tok xs

def memberTexts (tok : Json → Str) : List (Str × Json) → List Str
  | [] => []
  | (k, x) :: xs => (jsString k ++ lit ":" ++ formText tok x) :: memberTexts tok xs
end

variable {num : Json → Except PyError Str} {tok : Json → Str}

theorem writeList_eq_mapM (xs : List Json) : writeList num xs = xs.mapM (write num) := by
  induction xs with
  | nil => rfl
  | cons x xs ih => rw [writeList, List.mapM_cons, ih]

theorem lookup_writeKvs (kvs : List (Str × Json)) (k : Str) :
    (writeKvs num kvs).lookup k = (kvs.lookup k).map (write num) := by
  induction kvs with
  | nil => rfl
  | cons kv kvs ih =>
    rw [writeKvs, lookup_cons_if, lookup_cons_if, ih]
    split <;> rfl

theorem jcsFormList_eq_map (xs : List Json) : jcsFormList xs = xs.map jcsForm := by
  induction xs with
  | nil => rfl
  | cons x xs ih => rw [jcsFormList, ih, List.map_cons]

theorem lookup_jcsFormKvs (kvs : List (Str × Json)) (k : Str) :
    (jcsFormKvs kvs).lookup k = (kvs.lookup k).map jcsForm := by
  induction kvs with
  | nil => rfl
  | cons kv kvs ih =>
    rw [jcsFormKvs, lookup_cons_if, lookup_cons_if, ih]
    split <;> rfl

theorem formTexts_eq_map (xs : List Json) : formTexts tok xs = xs.map (formText tok) := by
  induction xs with
  | nil => rfl
  | cons x xs ih => rw [formTexts, ih, List.map_cons]

theorem memberTexts_eq_map (kvs : List (Str × Json)) : memberTexts tok kvs =
    kvs.map fun kx => jsString kx.1 ++ lit ":" ++ formText tok kx.2 := by
  induction kvs with
  | nil => rfl
  | cons kv kvs ih => rw [memberTexts, ih, List.map_cons]

/-- The members of a form are those of the value, in another order. -/
theorem lookup_jcsForm (kvs : List (Str × Json)) (k : Str) :
    (Ecma.sortUnits (sortKvs (jcsFormKvs kvs))).lookup k = (kvs.lookup k).map jcsForm := by
  rw [Ecma.lookup_sortUnits (sortKvs_keySorted _), lookup_sortKvs, lookup_jcsFormKvs]

theorem mem_jcsForm {kvs : List (Str × Json)} {kx : Str × Json}
    (h : kx ∈ Ecma.sortUnits (sortKvs (jcsFormKvs kvs))) :
    ∃ x, kvs.lookup kx.1 = some x ∧ jcsForm x = kx.2 := by
  have hmem : (kx.1, kx.2) ∈ sortKvs (jcsFormKvs kvs) := (List.mem_insertionSort _).mp h
  have hlook := (lookup_eq_some_iff (Ecma.nodup_keys (sortKvs_keySorted _))).mpr hmem
  rw [lookup_sortKvs, lookup_jcsFormKvs] at hlook
  exact Option.map_eq_some_iff.mp hlook

/-! ## The order of the keys -/

theorem utf16_of_scalar {k : Str} (h : Scalar k) : utf16 k = .ok ((units k).map (·.val)) := by
  rw [utf16, if_neg (Bool.eq_false_iff.mp h), units, List.map_flatMap]
  refine congrArg (fun f => Except.ok (k.flatMap f)) (funext fun c => ?_)
  by_cases hc : c.val < 0x10000
  · rw [if_pos hc, unitsOf, if_pos hc]
    rfl
  · obtain ⟨a, b, hab, ha, hb⟩ := unitsOf_astral hc
    rw [if_neg hc, hab, List.map_cons, List.map_cons, List.map_nil, ha, hb]

theorem scalar_of_utf16 {k : Str} {u : List Nat} (h : utf16 k = .ok u) : Scalar k := by
  unfold utf16 at h
  split at h
  next => cases h
  next hk => exact Bool.eq_false_iff.mpr hk

theorem unitsLt_map (s t : Str) : unitsLt (s.map (·.val)) (t.map (·.val)) = strLt s t := by
  induction s generalizing t with
  | nil => cases t <;> rfl
  | cons c s ih =>
    cases t with
    | nil => rfl
    | cons d t =>
      have heq : (c.val == d.val) = (c == d) := by
        rw [Bool.eq_iff_iff, beq_iff_eq, beq_iff_eq, Fin.val_inj]
      rw [List.map_cons, List.map_cons, unitsLt, strLt, ih, heq]
      rfl

/-- The order of two keys by code units. -/
abbrev UnitsLe (k l : Str) : Prop := Ecma.unitsLt l k = false

instance unitsLe_total : Std.Total UnitsLe where
  total k l := by
    unfold UnitsLe Ecma.unitsLt
    cases hkl : strLt (units l) (units k) with
    | false => exact Or.inl rfl
    | true =>
      refine Or.inr (Bool.eq_false_iff.mpr fun hlk => ?_)
      have := strLt_trans hkl hlk
      rw [strLt_irrefl] at this
      cases this

instance unitsLe_trans : IsTrans Str UnitsLe where
  trans k l m hkl hlm := by
    unfold UnitsLe Ecma.unitsLt at *
    refine Bool.eq_false_iff.mpr fun hmk => ?_
    by_cases heq : units l = units k
    · rw [heq, hmk] at hlm
      cases hlm
    · have := strLt_trans hmk (strLt_total heq hkl)
      rw [hlm] at this
      cases this

theorem unitsLe_antisymm {k l : Str} (hk : Scalar k) (hl : Scalar l) (hkl : UnitsLe k l)
    (hlk : UnitsLe l k) : k = l := by
  by_contra hne
  have := strLt_total (fun heq => hne (units_injective hk hl heq)) hlk
  rw [show strLt (units l) (units k) = false from hkl] at this
  cases this

/-- The keys of a sorted object are its keys, sorted. -/
theorem keys_sortUnits {l : List (Str × Json)} {ks : List Str} (hscalar : ∀ k ∈ ks, Scalar k)
    (hperm : ks.Perm (l.map (·.1))) : ks.insertionSort UnitsLe = (Ecma.sortUnits l).map (·.1) := by
  have hkeys : (Ecma.sortUnits l).map (·.1) = (l.map (·.1)).insertionSort UnitsLe :=
    List.map_insertionSort _ _ _ _ fun _ _ _ _ => Iff.rfl
  rw [hkeys]
  have hanti : ∀ a b, a ∈ ks.insertionSort UnitsLe →
      b ∈ (l.map (·.1)).insertionSort UnitsLe → UnitsLe a b → UnitsLe b a → a = b := by
    intro a b ha hb
    exact unitsLe_antisymm (hscalar a ((List.mem_insertionSort _).mp ha))
      (hscalar b (hperm.mem_iff.mpr ((List.mem_insertionSort _).mp hb)))
  refine List.Perm.eq_of_pairwise hanti (List.pairwise_insertionSort _ _)
    (List.pairwise_insertionSort _ _) ?_
  exact ((List.perm_insertionSort _ _).trans hperm).trans (List.perm_insertionSort _ _).symm

theorem mem_keys_iff {α : Type} {l : List (Str × α)} {k : Str} :
    k ∈ l.map (·.1) ↔ ∃ x, l.lookup k = some x := by
  constructor
  · intro hk
    cases hlook : l.lookup k with
    | some x => exact ⟨x, rfl⟩
    | none =>
      obtain ⟨kx, hkx, rfl⟩ := List.mem_map.mp hk
      have hne := List.lookup_eq_none_iff.mp hlook kx hkx
      rw [bne_self_eq_false] at hne
      cases hne
  · rintro ⟨x, hx⟩
    exact List.mem_map_of_mem (mem_of_lookup hx)

/-- An object whose values are all written, from its members without repetition. -/
theorem jcsMembers_eq {members : List (Str × Except PyError Str)} {l : List (Str × Json)}
    (hl : KeySorted l) (hscalar : ∀ k ∈ l.map (·.1), Scalar k)
    (hlook : ∀ k, members.lookup k = (l.lookup k).map fun x => .ok (formText tok x)) :
    jcsMembers members = .ok (formText tok (.obj (Ecma.sortUnits l))) := by
  have hkeys (k : Str) : k ∈ (members.map (·.1)).eraseDups ↔ k ∈ l.map (·.1) := by
    rw [List.mem_eraseDups, mem_keys_iff, mem_keys_iff, hlook]
    simp only [Option.map_eq_some_iff]
    exact ⟨fun ⟨_, x, hx, _⟩ => ⟨x, hx⟩, fun ⟨x, hx⟩ => ⟨_, x, hx, rfl⟩⟩
  have hscalar' : ∀ k ∈ (members.map (·.1)).eraseDups, Scalar k := fun k hk =>
    hscalar k ((hkeys k).mp hk)
  have hperm : ((members.map (·.1)).eraseDups).Perm (l.map (·.1)) :=
    (List.perm_ext_iff_of_nodup (nodup_eraseDups _) (Ecma.nodup_keys hl)).mpr hkeys
  have hunits : ((members.map (·.1)).eraseDups.mapM fun k => do return (← utf16 k, k)) =
      .ok ((members.map (·.1)).eraseDups.map fun k => ((units k).map (·.val), k)) :=
    mapM_eq_map fun k hk => by
      rw [utf16_of_scalar (hscalar' k hk)]
      rfl
  have hsort : ((members.map (·.1)).eraseDups.map fun k => ((units k).map (·.val), k)).insertionSort
      (fun a b => unitsLt b.1 a.1 = false) =
      ((Ecma.sortUnits l).map (·.1)).map fun k => ((units k).map (·.val), k) := by
    rw [← keys_sortUnits hscalar' hperm]
    refine (List.map_insertionSort _ _ _ _ fun a _ b _ => ?_).symm
    rw [unitsLt_map]
    rfl
  have hparts : (((Ecma.sortUnits l).map (·.1)).map fun k =>
      ((units k).map (·.val), k)).mapM (fun uk => do
        let v ← (members.lookup uk.2).getD (.error .keyError)
        return jsString uk.2 ++ lit ":" ++ v) = .ok (memberTexts tok (Ecma.sortUnits l)) := by
    rw [memberTexts_eq_map, List.map_map, mapM_ok, List.forall₂_map_left_iff,
      List.forall₂_map_right_iff, List.forall₂_same]
    intro kx hkx
    have hmem : (kx.1, kx.2) ∈ l := (List.mem_insertionSort _).mp hkx
    have hlook' : members.lookup kx.1 = some (.ok (formText tok kx.2)) := by
      rw [hlook, (lookup_eq_some_iff (Ecma.nodup_keys hl)).mpr hmem]
      rfl
    dsimp only [Function.comp_apply]
    rw [hlook']
    rfl
  refine bind_ok.mpr ⟨_, hunits, bind_ok.mpr ⟨_, ?_, rfl⟩⟩
  rw [← hparts, ← hsort]

/-- An object that is written has keys that are encoded, and its values are written. -/
theorem of_jcsMembers_ok {members : List (Str × Except PyError Str)} {t : Str}
    (h : jcsMembers members = .ok t) :
    (∀ k ∈ members.map (·.1), Scalar k) ∧ ∀ k x, members.lookup k = some x → Returns x := by
  obtain ⟨keys, hkeys, h⟩ := bind_ok.mp h
  obtain ⟨parts, hparts, -⟩ := bind_ok.mp h
  have hmem {k : Str} (hk : k ∈ members.map (·.1)) : ∃ u, utf16 k = .ok u ∧ (u, k) ∈ keys := by
    obtain ⟨⟨u, l⟩, huk, hok⟩ := mem_mapM_of_mem hkeys (List.mem_eraseDups.mpr hk)
    obtain ⟨u', hu, hok⟩ := bind_ok.mp hok
    obtain ⟨rfl, rfl⟩ := Prod.mk.inj (Except.ok.inj hok)
    exact ⟨u', hu, huk⟩
  constructor
  · intro k hk
    obtain ⟨u, hu, -⟩ := hmem hk
    exact scalar_of_utf16 hu
  · intro k x hx
    obtain ⟨u, -, huk⟩ := hmem (mem_keys_iff.mpr ⟨x, hx⟩)
    obtain ⟨p, -, hp⟩ := mem_mapM_of_mem hparts ((List.mem_insertionSort _).mpr huk)
    obtain ⟨v, hv, -⟩ := bind_ok.mp hp
    rw [hx, Option.getD_some] at hv
    exact ⟨v, hv⟩

/-! ## Whole values -/

theorem keys_writeKvs (kvs : List (Str × Json)) :
    (writeKvs num kvs).map (·.1) = kvs.map (·.1) := by
  induction kvs with
  | nil => rfl
  | cons kv kvs ih => rw [writeKvs, List.map_cons, List.map_cons, ih]

/-- What is written of a value whose numbers have the tokens `tok`. -/
theorem write_eq {v : Json} (hkeys : ScalarKeys v)
    (hnum : ∀ x, Within x v → isNumber x = true → num x = .ok (tok x)) :
    write num v = .ok (formText tok (jcsForm v)) := by
  induction v with
  | null => rfl
  | bool b => cases b <;> rfl
  | int n => exact hnum _ .refl rfl
  | float x => exact hnum _ .refl rfl
  | str s => rfl
  | arr xs ih =>
    have hlist : xs.mapM (write num) = .ok (xs.map fun x => formText tok (jcsForm x)) :=
      mapM_eq_map fun x hx => ih x hx (fun kvs h => hkeys kvs (.elem hx h))
        fun y hy => hnum y (.elem hx hy)
    rw [write, writeList_eq_mapM, hlist, jcsForm, formText, formTexts_eq_map, jcsFormList_eq_map,
      List.map_map]
    rfl
  | obj kvs ih =>
    rw [write, jcsForm]
    refine jcsMembers_eq (sortKvs_keySorted _) ?_ fun k => ?_
    · intro k hk
      obtain ⟨x, hx⟩ := mem_keys_iff.mp hk
      rw [lookup_sortKvs, lookup_jcsFormKvs] at hx
      obtain ⟨y, hy, -⟩ := Option.map_eq_some_iff.mp hx
      exact hkeys kvs .refl k (mem_keys_iff.mpr ⟨y, hy⟩)
    · rw [lookup_sortKvs, lookup_jcsFormKvs, lookup_writeKvs, Option.map_map]
      refine Option.map_congr fun x hx => ?_
      exact ih (k, x) (mem_of_lookup hx) (fun kvs h => hkeys kvs (.member hx h))
        fun y hy => hnum y (.member hx hy)

theorem write_number {x : Json} (h : isNumber x = true) : write num x = num x := by
  cases x with
  | int n => rfl
  | float x => rfl
  | _ => cases h

/-- A value without elements and members holds itself only. -/
theorem Within.eq_leaf {w v : Json} (h : Within w v) (harr : ∀ xs, v ≠ .arr xs)
    (hobj : ∀ kvs, v ≠ .obj kvs) : w = v := by
  cases h with
  | refl => rfl
  | elem => exact absurd rfl (harr _)
  | member => exact absurd rfl (hobj _)

theorem leaf_of_write_ok {v : Json} {t : Str} (harr : ∀ xs, v ≠ .arr xs)
    (hobj : ∀ kvs, v ≠ .obj kvs) (h : write num v = .ok t) :
    ScalarKeys v ∧ ∀ x, Within x v → isNumber x = true → Returns (num x) := by
  constructor
  · intro kvs hw
    exact absurd (hw.eq_leaf harr hobj).symm (hobj kvs)
  · intro x hw hx
    obtain rfl := hw.eq_leaf harr hobj
    exact ⟨t, (write_number hx).symm.trans h⟩

/-- A value that is written has keys without lone surrogates and numbers with a token. -/
theorem of_write_ok {v : Json} {t : Str} (h : write num v = .ok t) :
    ScalarKeys v ∧ ∀ x, Within x v → isNumber x = true → Returns (num x) := by
  induction v generalizing t with
  | arr xs ih =>
    obtain ⟨parts, hparts, -⟩ := bind_ok.mp h
    rw [writeList_eq_mapM] at hparts
    have helem {x : Json} (hx : x ∈ xs) :
        ScalarKeys x ∧ ∀ y, Within y x → isNumber y = true → Returns (num y) := by
      obtain ⟨p, -, hp⟩ := mem_mapM_of_mem hparts hx
      exact ih x hx hp
    constructor
    · rintro kvs (_ | ⟨hx, hw⟩)
      exact (helem hx).1 kvs hw
    · rintro y (_ | ⟨hx, hw⟩) hy
      · cases hy
      · exact (helem hx).2 y hw hy
  | obj kvs ih =>
    obtain ⟨hkeys, hvals⟩ := of_jcsMembers_ok h
    rw [keys_writeKvs] at hkeys
    have hmember {k : Str} {x : Json} (hx : kvs.lookup k = some x) :
        ScalarKeys x ∧ ∀ y, Within y x → isNumber y = true → Returns (num y) := by
      obtain ⟨p, hp⟩ := hvals k (write num x) (by rw [lookup_writeKvs, hx]; rfl)
      exact ih (k, x) (mem_of_lookup hx) hp
    constructor
    · rintro lvs (_ | _ | ⟨hx, hw⟩)
      · exact hkeys
      · exact (hmember hx).1 lvs hw
    · rintro y (_ | _ | ⟨hx, hw⟩) hy
      · cases hy
      · exact (hmember hx).2 y hw hy
  | _ => exact leaf_of_write_ok (by simp) (by simp) h

/-! ## One text, one token for each number -/

/-- No character of the number's token can stand behind it. -/
def Delimited (tok : Json → Str) (v : Json) : Prop :=
  ∀ x, Within x v → isNumber x = true → ∀ c ∈ tok x, isDelim c = false

/-- Where the two texts stand before a rest and make one text, `Q` holds and the rests
are one. -/
def ReadsAlike (t u : Str) (Q : Prop) : Prop :=
  ∀ r s, Stops r → Stops s → t ++ r = u ++ s → Q ∧ r = s

/-- Joined texts are read part by part. -/
theorem joinComma_readsAlike {α : Type} {f g : α → Str} {Q : α → Prop} {close : CodePoint}
    (hclose : isDelim close = true) {xs : List α} (ih : ∀ x ∈ xs, ReadsAlike (f x) (g x) (Q x))
    {r s : Str} (h : joinComma (xs.map f) ++ close :: r = joinComma (xs.map g) ++ close :: s) :
    (∀ x ∈ xs, Q x) ∧ r = s := by
  have hstop (t : Str) : Stops (close :: t) := by
    rintro c ⟨⟩
    exact hclose
  have hcomma (t : Str) : Stops (lit "," ++ t) := by
    rintro c ⟨⟩
    rfl
  induction xs with
  | nil => exact ⟨by simp, (List.cons.inj h).2⟩
  | cons x xs ihxs =>
    have hx := ih x List.mem_cons_self
    cases xs with
    | nil =>
      obtain ⟨hq, hrs⟩ := hx _ _ (hstop r) (hstop s) h
      exact ⟨by simpa using hq, (List.cons.inj hrs).2⟩
    | cons y ys =>
      rw [List.map_cons, List.map_cons, List.map_cons, List.map_cons, joinComma, joinComma,
        ← List.map_cons, ← List.map_cons] at h
      simp only [List.append_assoc] at h
      obtain ⟨hq, hrest⟩ := hx _ _ (hcomma _) (hcomma _) h
      obtain ⟨hqs, hrs⟩ := ihxs (fun z hz => ih z (List.mem_cons_of_mem _ hz))
        (List.append_cancel_left hrest)
      exact ⟨List.forall_mem_cons.mpr ⟨hq, hqs⟩, hrs⟩

/-- The numbers within the value have the same token from both. -/
def SameTokens (f g : Json → Str) (v : Json) : Prop :=
  ∀ x, Within x v → isNumber x = true → f x = g x

theorem sameTokens_leaf {f g : Json → Str} {v : Json} (harr : ∀ xs, v ≠ .arr xs)
    (hobj : ∀ kvs, v ≠ .obj kvs) (h : isNumber v = true → f v = g v) : SameTokens f g v := by
  intro x hw hx
  obtain rfl := hw.eq_leaf harr hobj
  exact h hx

/-- Two texts of one value have the same tokens. -/
theorem formText_readsAlike {f g : Json → Str} {v : Json} (hf : Delimited f v)
    (hg : Delimited g v) :
    ReadsAlike (formText f (jcsForm v)) (formText g (jcsForm v)) (SameTokens f g v) := by
  induction v with
  | null =>
    intro r s _ _ h
    exact ⟨sameTokens_leaf (by simp) (by simp) (by simp [isNumber]), List.append_cancel_left h⟩
  | bool b =>
    intro r s _ _ h
    refine ⟨sameTokens_leaf (by simp) (by simp) (by simp [isNumber]), ?_⟩
    cases b <;> exact List.append_cancel_left h
  | str t =>
    intro r s _ _ h
    exact ⟨sameTokens_leaf (by simp) (by simp) (by simp [isNumber]), List.append_cancel_left h⟩
  | int n =>
    intro r s hr hs h
    obtain ⟨heq, hrs⟩ := token_append_inj (hf _ .refl rfl) (hg _ .refl rfl) hr hs h
    exact ⟨sameTokens_leaf (by simp) (by simp) fun _ => heq, hrs⟩
  | float x =>
    intro r s hr hs h
    obtain ⟨heq, hrs⟩ := token_append_inj (hf _ .refl rfl) (hg _ .refl rfl) hr hs h
    exact ⟨sameTokens_leaf (by simp) (by simp) fun _ => heq, hrs⟩
  | arr xs ih =>
    intro r s _ _ h
    rw [jcsForm, formText, formText, formTexts_eq_map, formTexts_eq_map, jcsFormList_eq_map,
      List.map_map, List.map_map] at h
    simp only [List.append_assoc] at h
    have hread : ∀ x ∈ xs, ReadsAlike ((formText f ∘ jcsForm) x) ((formText g ∘ jcsForm) x)
        (SameTokens f g x) := fun x hx =>
      ih x hx (fun y hy => hf y (.elem hx hy)) fun y hy => hg y (.elem hx hy)
    obtain ⟨hall, hrs⟩ := joinComma_readsAlike rfl hread
      (List.append_cancel_left h)
    refine ⟨?_, hrs⟩
    rintro x (_ | ⟨hx, hw⟩) hnumber
    · cases hnumber
    · exact hall _ hx x hw hnumber
  | obj kvs ih =>
    intro r s _ _ h
    rw [jcsForm, formText, formText, memberTexts_eq_map, memberTexts_eq_map] at h
    simp only [List.append_assoc] at h
    have hread : ∀ kx ∈ Ecma.sortUnits (sortKvs (jcsFormKvs kvs)),
        ReadsAlike (jsString kx.1 ++ (lit ":" ++ formText f kx.2))
          (jsString kx.1 ++ (lit ":" ++ formText g kx.2))
          (∀ x, kvs.lookup kx.1 = some x → SameTokens f g x) := by
      intro kx hkx r s hr hs h
      obtain ⟨x, hx, hform⟩ := mem_jcsForm hkx
      rw [← hform] at h
      simp only [List.append_assoc] at h
      obtain ⟨hsame, hrs⟩ := ih (kx.1, x) (mem_of_lookup hx) (fun y hy => hf y (.member hx hy))
        (fun y hy => hg y (.member hx hy)) r s hr hs
        (List.append_cancel_left (List.append_cancel_left h))
      refine ⟨fun y hy => ?_, hrs⟩
      obtain rfl := Option.some.inj (hx.symm.trans hy)
      exact hsame
    obtain ⟨hall, hrs⟩ := joinComma_readsAlike rfl hread
      (List.append_cancel_left h)
    refine ⟨?_, hrs⟩
    rintro x (_ | _ | ⟨hx, hw⟩) hnumber
    · cases hnumber
    · have hlook := (lookup_jcsForm kvs _).trans (congrArg (Option.map jcsForm) hx)
      exact hall _ (mem_of_lookup hlook) _ hx x hw hnumber

/-! ## Two canonicalizers -/

/-- The token that `num` gives a number. -/
def tokenOf (num : Json → Except PyError Str) (x : Json) : Str :=
  match num x with
  | .ok t => t
  | .error _ => []

theorem tokenOf_ok {x : Json} (h : Returns (num x)) : num x = .ok (tokenOf num x) := by
  obtain ⟨t, ht⟩ := h
  rw [tokenOf, ht]

/-- Every number within the value has a token. -/
def HasTokens (num : Json → Except PyError Str) (v : Json) : Prop :=
  ∀ x, Within x v → isNumber x = true → Returns (num x)

theorem returns_write_iff {v : Json} :
    Returns (write num v) ↔ ScalarKeys v ∧ HasTokens num v := by
  constructor
  · rintro ⟨t, ht⟩
    exact of_write_ok ht
  · rintro ⟨hkeys, htokens⟩
    exact ⟨_, write_eq hkeys fun x hw hx => tokenOf_ok (htokens x hw hx)⟩

/-- The tokens of the numbers within the value hold no character that can stand behind
one. -/
def Delimits (num : Json → Except PyError Str) (v : Json) : Prop :=
  ∀ x, Within x v → isNumber x = true → ∀ t, num x = .ok t → ∀ c ∈ t, isDelim c = false

theorem Delimits.tokenOf {v : Json} (h : Delimits num v) (htokens : HasTokens num v) :
    Delimited (tokenOf num) v :=
  fun x hw hx => h x hw hx _ (tokenOf_ok (htokens x hw hx))

/-- Two canonicalizers give the same texts of a value: where neither does, or where
they give the same token of each number within it. -/
theorem write_agree_iff {num₁ num₂ : Json → Except PyError Str} {v : Json}
    (h₁ : Delimits num₁ v) (h₂ : Delimits num₂ v) :
    (∀ t, write num₁ v = .ok t ↔ write num₂ v = .ok t) ↔
      (ScalarKeys v → ¬ HasTokens num₁ v ∧ ¬ HasTokens num₂ v ∨
        ∀ x, Within x v → isNumber x = true → ∃ t, num₁ x = .ok t ∧ num₂ x = .ok t) := by
  constructor
  · intro hsame hkeys
    have hreturns : Returns (write num₁ v) ↔ Returns (write num₂ v) := exists_congr hsame
    rw [returns_write_iff, returns_write_iff, and_iff_right hkeys, and_iff_right hkeys] at hreturns
    by_cases htokens : HasTokens num₁ v
    · refine Or.inr fun x hw hx => ?_
      have htokens' := hreturns.mp htokens
      have heq := (hsame _).mp (write_eq hkeys fun x hw hx => tokenOf_ok (htokens x hw hx))
      rw [write_eq hkeys fun x hw hx => tokenOf_ok (htokens' x hw hx)] at heq
      have hstop : Stops [] := by
        rintro c ⟨⟩
      obtain ⟨hall, -⟩ := formText_readsAlike (h₂.tokenOf htokens') (h₁.tokenOf htokens) [] []
        hstop hstop (by rw [Except.ok.inj heq])
      refine ⟨_, tokenOf_ok (htokens x hw hx), ?_⟩
      rw [← hall x hw hx]
      exact tokenOf_ok (htokens' x hw hx)
    · exact Or.inl ⟨htokens, fun h => htokens (hreturns.mpr h)⟩
  · intro hcond t
    by_cases hkeys : ScalarKeys v
    · obtain ⟨hnone₁, hnone₂⟩ | hall := hcond hkeys
      · exact iff_of_false (fun h => hnone₁ (of_write_ok h).2) fun h => hnone₂ (of_write_ok h).2
      · have hboth : ∀ x, Within x v → isNumber x = true →
            num₁ x = .ok (tokenOf num₁ x) ∧ num₂ x = .ok (tokenOf num₁ x) := by
          intro x hw hx
          obtain ⟨t, ht₁, ht₂⟩ := hall x hw hx
          have htok := Except.ok.inj ((tokenOf_ok ⟨t, ht₁⟩).symm.trans ht₁)
          exact ⟨tokenOf_ok ⟨t, ht₁⟩, by rw [htok, ht₂]⟩
        rw [write_eq hkeys fun x hw hx => (hboth x hw hx).1,
          write_eq hkeys fun x hw hx => (hboth x hw hx).2]
    · exact iff_of_false (fun h => hkeys (of_write_ok h).1) fun h => hkeys (of_write_ok h).1

/-! ## `tools/_rfc8785.jcs` -/

variable (R : Runtime)

/-- `js_number(x)` -/
def jsNumber : Json → Except PyError Str
  | .int n => jsInt R n
  | .float x => jsDouble R x
  | _ => .error .typeError

theorem jcs_eq_write (v : Json) : jcs R v = write (jsNumber R) v := by
  induction v with
  | null => rfl
  | bool b => cases b <;> rfl
  | int n => rfl
  | float x => rfl
  | str s => rfl
  | arr xs ih =>
    have hlist : jcsList R xs = writeList (jsNumber R) xs := by
      induction xs with
      | nil => rfl
      | cons x xs ihxs =>
        obtain ⟨hx, hxs⟩ := List.forall_mem_cons.mp ih
        rw [jcsList, writeList, hx, ihxs hxs]
    rw [jcs, write, hlist]
  | obj kvs ih =>
    have hkvs : jcsKvs R kvs = writeKvs (jsNumber R) kvs := by
      induction kvs with
      | nil => rfl
      | cons kv kvs ihkvs =>
        obtain ⟨k, v⟩ := kv
        obtain ⟨hv, hrest⟩ := List.forall_mem_cons.mp ih
        rw [jcsKvs, writeKvs, hv, ihkvs hrest]
    rw [jcs, write, hkvs]

end Preaction.Rfc8785
