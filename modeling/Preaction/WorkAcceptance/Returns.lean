import Preaction.WorkAcceptance.SignedTime
import Preaction.WorkAcceptance.Verdict

/-!
# When `check` ends without an exception

A verifier refuses or reports; it does not fail. `check` asks of the types it
knows up front, and reads everything else as it comes: the schema is looked up in
a set, the record is written in its canonical form, two tokens are taken apart
byte by byte, the anchors are decoded, the relying party's keys are gone through.
`check_returns_iff` says on which inputs all of them end.

Mirroring notes:
- The condition is one of the shape of the inputs: of the elements of a token,
  of the texts and numbers of a record. The order of the checks does not show,
  but what is not reached is not asked of.
- Limits of the machine are not modelled: the depth of a recursion, the digits of
  an integer that is printed or read.
- Where anchors are given, `tsa_sig.evaluate` is asked to return.
-/

namespace Preaction.WarCheck

open Preaction.Py Preaction.Loop Preaction.Search Preaction.Rfc8785 Json

/-! ## The canonical form -/

/-- A text that UTF-8 can encode. -/
def Prints (x : Except PyError Str) : Prop := ∃ s, x = .ok s ∧ Scalar s

/-- A value that has a canonical form: no text and no key has a lone surrogate, every
number prints, and of a key that is repeated the first value counts. -/
inductive Canonical (R : Runtime) : Json → Prop
  | null : Canonical R .null
  | bool (b : Bool) : Canonical R (.bool b)
  | int {n : Int} (h : Prints (esInt R n)) : Canonical R (.int n)
  | float {x : PyFloat} (h : Prints (esDouble R x)) : Canonical R (.float x)
  | str {s : Str} (h : Scalar s) : Canonical R (.str s)
  | arr {xs : List Json} (h : ∀ x ∈ xs, Canonical R x) : Canonical R (.arr xs)
  | obj {kvs : List (Str × Json)} (hkeys : ∀ k v, kvs.lookup k = some v → Scalar k)
      (hvals : ∀ k v, kvs.lookup k = some v → Canonical R v) : Canonical R (.obj kvs)

theorem prints_bind {α : Type} {x : Except PyError α} {f : α → Except PyError Str} :
    Prints (x >>= f) ↔ ∃ a, x = .ok a ∧ Prints (f a) := by
  constructor
  · rintro ⟨s, h, hs⟩
    obtain ⟨a, ha, hfa⟩ := bind_ok.mp h
    exact ⟨a, ha, s, hfa, hs⟩
  · rintro ⟨a, ha, s, hfa, hs⟩
    exact ⟨s, bind_ok.mpr ⟨a, ha, hfa⟩, hs⟩

theorem returns_utf8 {s : Str} : Returns (utf8 s) ↔ Scalar s := by
  unfold utf8 Scalar
  cases s.any isSurrogate <;> simp

theorem returns_utf16 {s : Str} : Returns (utf16 s) ↔ Scalar s := by
  unfold utf16 Scalar
  cases s.any isSurrogate <;> simp

/-- A surrogate is written as it is. -/
theorem escapeChar_surrogate {c : CodePoint} (h : isSurrogate c = true) :
    escapeChar false c = [c] := by
  have hlarge : 0xD800 ≤ c.val := by
    simp only [isSurrogate, Bool.and_eq_true, decide_eq_true_eq] at h
    exact h.1
  simp only [escapeChar, Bool.false_and, Bool.or_false, decide_eq_true_eq]
  repeat rw [if_neg (by omega)]

theorem scalar_jsString {s : Str} : Scalar (jsString s) ↔ Scalar s := by
  constructor
  · intro h
    refine List.any_eq_false.mpr fun c hc hsurr => ?_
    have hmem : c ∈ jsString s := by
      refine List.mem_cons_of_mem _ (List.mem_append_left _ (List.mem_flatMap.mpr ⟨c, hc, ?_⟩))
      rw [escapeChar_surrogate hsurr]
      exact List.mem_singleton_self c
    exact List.any_eq_false.mp h c hmem hsurr
  · intro h
    exact (quote_scalar h false).2

theorem scalar_joinComma {parts : List Str} :
    Scalar (joinComma parts) ↔ ∀ p ∈ parts, Scalar p := by
  induction parts with
  | nil => exact iff_of_true rfl nofun
  | cons p parts ih =>
    cases parts with
    | nil => simp [joinComma]
    | cons q parts =>
      have hcomma : Scalar (lit ",") := by decide
      rw [joinComma, scalar_append, scalar_append, ih]
      exact (and_congr_left fun _ => and_iff_left hcomma).trans List.forall_mem_cons.symm

/-- A loop whose parts are joined prints where each part does. -/
theorem prints_join {α : Type} {f : α → Except PyError Str} {xs : List α} {pre post : Str}
    (hpre : Scalar pre) (hpost : Scalar post) :
    Prints (do return pre ++ joinComma (← xs.mapM f) ++ post) ↔ ∀ x ∈ xs, Prints (f x) := by
  have hparts {parts : List Str} :
      Scalar (pre ++ joinComma parts ++ post) ↔ ∀ p ∈ parts, Scalar p := by
    rw [scalar_append, scalar_append, scalar_joinComma]
    exact ⟨fun h => h.1.2, fun h => ⟨⟨hpre, h⟩, hpost⟩⟩
  constructor
  · rintro ⟨s, h, hs⟩ x hx
    obtain ⟨parts, hm, h⟩ := bind_ok.mp h
    obtain rfl := Except.ok.inj h
    obtain ⟨p, hp, hfx⟩ := mem_mapM_of_mem hm hx
    exact ⟨p, hfx, hparts.mp hs p hp⟩
  · intro h
    obtain ⟨parts, hm⟩ := returns_mapM.mpr fun x hx => ((h x hx).imp fun _ hp => hp.1 : Returns _)
    refine ⟨_, bind_ok.mpr ⟨parts, hm, rfl⟩, hparts.mpr fun p hp => ?_⟩
    obtain ⟨x, hx, hfx⟩ := exists_of_mem_mapM hm hp
    obtain ⟨p', hp', hscalar⟩ := h x hx
    rwa [Except.ok.inj (hfx.symm.trans hp')]

/-- An object prints where each of its keys and the value it counts for do. -/
theorem prints_jcsMembers {members : List (Str × Except PyError Str)} :
    Prints (jcsMembers members) ↔ ∀ k x, members.lookup k = some x → Scalar k ∧ Prints x := by
  have hkey {k : Str} {x : Except PyError Str} (hx : members.lookup k = some x) :
      k ∈ (members.map (·.1)).eraseDups :=
    List.mem_eraseDups.mpr (List.mem_map_of_mem (mem_of_lookup hx))
  have hpart {k : Str} {x : Except PyError Str} (hx : members.lookup k = some x) :
      Prints (do
        let v ← (members.lookup k).getD (.error .keyError)
        return jsString k ++ lit ":" ++ v) ↔ Scalar k ∧ Prints x := by
    have hcolon : Scalar (lit ":") := by decide
    rw [hx, Option.getD_some, prints_bind]
    constructor
    · rintro ⟨v, hv, s, hs, hscalar⟩
      obtain rfl := Except.ok.inj hs
      rw [scalar_append, scalar_append, scalar_jsString] at hscalar
      exact ⟨hscalar.1.1, v, hv, hscalar.2⟩
    · rintro ⟨hk, v, hv, hscalar⟩
      refine ⟨v, hv, _, rfl, ?_⟩
      rw [scalar_append, scalar_append, scalar_jsString]
      exact ⟨⟨hk, hcolon⟩, hscalar⟩
  unfold jcsMembers
  rw [prints_bind]
  constructor
  · rintro ⟨keys, hkeys, h⟩ k x hx
    obtain ⟨⟨u, k'⟩, hmem, hu⟩ := mem_mapM_of_mem hkeys (hkey hx)
    obtain ⟨u', -, hu⟩ := bind_ok.mp hu
    obtain ⟨rfl, rfl⟩ := Prod.mk.inj (Except.ok.inj hu)
    have hall := (prints_join (by decide) (by decide)).mp h
    exact (hpart hx).mp (hall _ ((List.mem_insertionSort _).mpr hmem))
  · intro h
    have hbound : ∀ k ∈ (members.map (·.1)).eraseDups, ∃ x, members.lookup k = some x := by
      intro k hk
      obtain ⟨kx, hkx, rfl⟩ := List.mem_map.mp (List.mem_eraseDups.mp hk)
      cases hlook : members.lookup kx.1 with
      | some x => exact ⟨x, rfl⟩
      | none =>
        have hne := List.lookup_eq_none_iff.mp hlook kx hkx
        rw [bne_self_eq_false] at hne
        cases hne
    obtain ⟨keys, hkeys⟩ : Returns (((members.map (·.1)).eraseDups).mapM fun k => do
        return (← utf16 k, k)) := by
      refine returns_mapM.mpr fun k hk => ?_
      obtain ⟨x, hx⟩ := hbound k hk
      obtain ⟨u, hu⟩ := returns_utf16.mpr (h k x hx).1
      exact ⟨(u, k), bind_ok.mpr ⟨u, hu, rfl⟩⟩
    refine ⟨keys, hkeys, (prints_join (by decide) (by decide)).mpr fun uk huk => ?_⟩
    obtain ⟨k, hk, hu⟩ := exists_of_mem_mapM hkeys ((List.mem_insertionSort _).mp huk)
    obtain ⟨u, -, hu⟩ := bind_ok.mp hu
    obtain rfl := Except.ok.inj hu
    obtain ⟨x, hx⟩ := hbound k hk
    exact (hpart hx).mpr (h k x hx)

variable {R : Runtime}

theorem encList_eq (xs : List Json) : encList R xs = xs.mapM (enc R) := by
  induction xs with
  | nil => rfl
  | cons x xs ih => rw [encList, List.mapM_cons, ih]

theorem lookup_encKvs (kvs : List (Str × Json)) (k : Str) :
    (encKvs R kvs).lookup k = (kvs.lookup k).map (enc R) := by
  induction kvs with
  | nil => rfl
  | cons kv kvs ih =>
    rw [encKvs, lookup_cons_if, lookup_cons_if, ih]
    split <;> rfl

/-- A value is written, without a surrogate, where it has a canonical form. -/
theorem prints_enc_iff {v : Json} : Prints (enc R v) ↔ Canonical R v := by
  induction v with
  | null => exact iff_of_true ⟨_, rfl, by decide⟩ .null
  | bool b =>
    refine iff_of_true ?_ (.bool b)
    cases b
    · exact ⟨_, rfl, by decide⟩
    · exact ⟨_, rfl, by decide⟩
  | int n => exact ⟨.int, fun | .int h => h⟩
  | float x => exact ⟨.float, fun | .float h => h⟩
  | str s =>
    constructor
    · rintro ⟨t, ht, hscalar⟩
      obtain rfl := Except.ok.inj ht
      exact .str (scalar_jsString.mp hscalar)
    · intro h
      cases h with
      | str h => exact ⟨_, rfl, scalar_jsString.mpr h⟩
  | arr xs ih =>
    rw [enc, encList_eq, prints_join (by decide) (by decide)]
    constructor
    · exact fun h => .arr fun x hx => (ih x hx).mp (h x hx)
    · intro h x hx
      cases h with
      | arr h => exact (ih x hx).mpr (h x hx)
  | obj kvs ih =>
    have hval {k : Str} {v : Json} (hv : kvs.lookup k = some v) :
        Prints (enc R v) ↔ Canonical R v := ih (k, v) (mem_of_lookup hv)
    rw [enc, prints_jcsMembers]
    constructor
    · intro h
      have hboth {k : Str} {v : Json} (hv : kvs.lookup k = some v) :
          Scalar k ∧ Prints (enc R v) := h k _ (by rw [lookup_encKvs, hv]; rfl)
      exact .obj (fun k v hv => (hboth hv).1) fun k v hv => (hval hv).mp (hboth hv).2
    · intro h k x hx
      cases h with
      | obj hkeys hvals =>
        rw [lookup_encKvs] at hx
        obtain ⟨v, hv, rfl⟩ := Option.map_eq_some_iff.mp hx
        exact ⟨hkeys k v hv, (hval hv).mpr (hvals k v hv)⟩

/-- `jcs` returns on the values that have a canonical form. -/
theorem returns_jcs {v : Json} : Returns (jcs R v) ↔ Canonical R v := by
  rw [← prints_enc_iff, jcs, returns_bind]
  exact exists_congr fun s => and_congr_right fun _ => returns_utf8

/-! ## The tokens -/

/-- The element is an OID in which no number ends, or the OID of a TSTInfo before an
explicit `[0]` that is no sequence of elements, or an empty one. -/
def BrokenAt (t : UInt8) (v : Bytes) (next : List (UInt8 × Bytes)) : Prop :=
  t = 0x06 ∧ (base128 0 v = [] ∨ oid v = .ok oidTstInfo ∧ ∃ content rest,
    next = (0xA0, content) :: rest ∧ ∀ kids, children content = .ok kids → kids = [])

/-- Among the elements a broken one stands before any content of a TSTInfo. -/
def Broken : List (UInt8 × Bytes) → Prop
  | [] => False
  | (t, v) :: kids => BrokenAt t v kids ∨ contentAt t v kids = .ok none ∧ Broken kids

/-- The fields of a TSTInfo that are read: an imprint of an algorithm and a value in the
third one, a genTime, and behind it no accuracy that is no sequence of elements. -/
def TstShape (info : Bytes) : Prop :=
  ∃ f, tstFields info = .ok f ∧
    (∃ t m mi, f[2]? = some (t, m) ∧ children m = .ok mi ∧ mi[1]?.isSome = true ∧
      ∃ ta algs, mi[0]? = some (ta, algs) ∧
      ∃ tn name rest, children algs = .ok ((tn, name) :: rest) ∧ base128 0 name ≠ []) ∧
    ∃ gi, f.findIdx? (·.1 == 0x18) = some gi ∧
      ∀ v, f[gi + 1]? = some (0x30, v) → Returns (children v)

/-- What the search meets first is no broken element, and what it finds is shaped as a
TSTInfo. -/
def ReadableToken (token : Json) : Prop :=
  ∀ raw, token.truthy = true → b64Canonical token = some raw →
    ¬ Raises visit raw ∧ ∀ info, First visit raw info → TstShape info

theorem returns_oid {v : Bytes} : Returns (oid v) ↔ base128 0 v ≠ [] := by
  unfold oid
  split
  next h => rw [h]; simp
  next h => rw [h]; simp

theorem elem_ok {f : List (UInt8 × Bytes)} {i : Nat} {x : UInt8 × Bytes} :
    elem f i = .ok x ↔ f[i]? = some x := by
  unfold elem
  split
  next h => rw [h, Except.ok.injEq, Option.some.injEq]
  next h => rw [h]; exact ⟨nofun, nofun⟩

theorem contentAt_raises_iff {t : UInt8} {v : Bytes} {next : List (UInt8 × Bytes)} :
    ¬ Returns (contentAt t v next) ↔ BrokenAt t v next := by
  unfold contentAt
  by_cases ht : t = 0x06
  · rw [if_neg (not_not.mpr ht)]
    cases ho : oid v with
    | error e =>
      -- an OID in which no number ends
      have hnil : base128 0 v = [] := by
        by_contra hne
        obtain ⟨name, hname⟩ := returns_oid.mpr hne
        cases ho.symm.trans hname
      exact iff_of_true (not_returns_error e) ⟨ht, .inl hnil⟩
    | ok name =>
      have hne : base128 0 v ≠ [] := returns_oid.mp ⟨name, ho⟩
      rw [BrokenAt, ho, or_iff_right hne, and_iff_right ht, Except.ok.injEq]
      change ¬ Returns (pure name >>= _) ↔ _
      rw [pure_bind]
      split
      next content rest =>
        split
        next hname =>
          rw [returns_bind, and_iff_right hname]
          constructor
          · intro h
            refine ⟨content, rest, rfl, fun kids hkids => ?_⟩
            cases kids with
            | nil => rfl
            | cons kid kids => exact absurd ⟨_, hkids, _, rfl⟩ h
          · rintro ⟨content', rest', heq, h⟩ ⟨kids, hkids, hret⟩
            obtain ⟨⟨-, rfl⟩, -⟩ := by simpa using heq
            obtain rfl := h kids hkids
            exact not_returns_error _ hret
        next hname => exact iff_of_false (not_not.mpr ⟨_, rfl⟩) fun h => hname h.1
      next hno =>
        refine iff_of_false (not_not.mpr ⟨_, rfl⟩) ?_
        rintro ⟨-, content, rest, rfl, -⟩
        exact hno content rest rfl
  · rw [if_pos ht]
    exact iff_of_false (not_not.mpr ⟨_, rfl⟩) fun h => ht h.1

theorem scan_raises_iff {kids : List (UInt8 × Bytes)} : ¬ Returns (scan kids) ↔ Broken kids := by
  induction kids with
  | nil => exact iff_of_false (not_not.mpr ⟨_, rfl⟩) id
  | cons kid kids ih =>
    obtain ⟨t, v⟩ := kid
    rw [Broken, ← contentAt_raises_iff, ← ih, scan]
    cases hc : contentAt t v kids with
    | error e => exact iff_of_true (not_returns_error e) (.inl (not_returns_error e))
    | ok found =>
      cases found with
      | some info =>
        refine iff_of_false (not_not.mpr ⟨_, rfl⟩) ?_
        rintro (h | ⟨h, -⟩)
        · exact h ⟨_, rfl⟩
        · cases h
      | none =>
        rw [or_iff_right (not_not.mpr ⟨_, rfl⟩), and_iff_right rfl]
        refine not_congr ?_
        show Returns (scan kids >>= _) ↔ _
        rw [returns_bind]
        constructor
        · rintro ⟨r, hr, -⟩
          exact ⟨r, hr⟩
        · rintro ⟨r, hr⟩
          refine ⟨r, hr, ?_⟩
          cases r <;> exact ⟨_, rfl⟩

/-- A visit raises where a broken element stands before any content. -/
theorem visit_raises_iff {b : Bytes} :
    ¬ Returns (visit b) ↔ ∃ kids, children b = .ok kids ∧ Broken kids := by
  unfold visit
  split
  next e he => rw [he]; simp
  next kids hkids => rw [hkids, scan_raises_iff]; simp

theorem returns_accuracy {next : Option (UInt8 × Bytes)} :
    Returns (accuracy next) ↔ ∀ v, next = some (0x30, v) → Returns (children v) := by
  unfold accuracy
  split
  next v =>
    have hmap : Returns (children v >>= fun kids =>
        (pure (kids.map fun tv => accuracyUnit tv.1 * fromBytesBig tv.2).sum :
          Except PyError Rat)) ↔ Returns (children v) := by
      rw [returns_bind]
      exact exists_congr fun kids => and_iff_left ⟨_, rfl⟩
    refine hmap.trans ⟨?_, fun h => h v rfl⟩
    rintro h w hw
    obtain ⟨-, rfl⟩ := Prod.mk.inj (Option.some.inj hw)
    exact h
  next hno => exact iff_of_true ⟨_, rfl⟩ fun v hv => absurd hv (hno v)

theorem returns_readTstInfo {info : Bytes} : Returns (readTstInfo info) ↔ TstShape info := by
  unfold readTstInfo TstShape
  rw [returns_bind]
  refine exists_congr fun f => and_congr_right fun _ => ?_
  constructor
  · rintro ⟨t, h⟩
    obtain ⟨⟨t₂, m⟩, hm, h⟩ := bind_ok.mp h
    obtain ⟨mi, hmi, h⟩ := bind_ok.mp h
    obtain ⟨⟨ta, algs⟩, ha, h⟩ := bind_ok.mp h
    obtain ⟨kids, hkids, h⟩ := bind_ok.mp h
    obtain ⟨⟨tn, name⟩, hn, h⟩ := bind_ok.mp h
    obtain ⟨alg, halg, h⟩ := bind_ok.mp h
    rw [elem_ok] at hm ha hn
    split at h
    next => cases h
    next gi hgi =>
      obtain ⟨_, -, h⟩ := bind_ok.mp h
      obtain ⟨acc, hacc, h⟩ := bind_ok.mp h
      obtain ⟨hash, hhash, h⟩ := bind_ok.mp h
      rw [elem_ok] at hhash
      refine ⟨⟨t₂, m, mi, hm, hmi, by rw [hhash]; rfl, ta, algs, ha, ?_⟩, gi, hgi,
        returns_accuracy.mp ⟨acc, hacc⟩⟩
      cases kids with
      | nil => cases hn
      | cons kid rest =>
        obtain rfl := Option.some.inj hn
        exact ⟨tn, name, rest, hkids, returns_oid.mp ⟨alg, halg⟩⟩
  · rintro ⟨⟨t₂, m, mi, hm, hmi, hhash, ta, algs, ha, tn, name, rest, hkids, hname⟩, gi, hgi, hacc⟩
    obtain ⟨alg, halg⟩ := returns_oid.mpr hname
    obtain ⟨acc, hacc⟩ := returns_accuracy.mpr hacc
    obtain ⟨hash, hhash⟩ := Option.isSome_iff_exists.mp hhash
    obtain ⟨hlt, -, -⟩ := List.findIdx?_eq_some_iff_getElem.mp hgi
    refine returns_bind.mpr ⟨_, elem_ok.mpr hm, returns_bind.mpr ⟨mi, hmi, ?_⟩⟩
    refine returns_bind.mpr ⟨_, elem_ok.mpr ha, returns_bind.mpr ⟨_, hkids, ?_⟩⟩
    refine returns_bind.mpr ⟨(tn, name), rfl, returns_bind.mpr ⟨alg, halg, ?_⟩⟩
    rw [hgi]
    refine returns_bind.mpr ⟨_, elem_ok.mpr (List.getElem?_eq_getElem hlt), ?_⟩
    exact returns_bind.mpr ⟨acc, hacc, returns_bind.mpr ⟨hash, elem_ok.mpr hhash, _, rfl⟩⟩

theorem returns_findTstinfo {raw : Bytes} : Returns (findTstinfo raw) ↔ ¬ Raises visit raw :=
  search_returns_iff (fun _ => Nat.succ_pos _) (fun _ _ h => sum_size_visit h) (Nat.le_refl _)

/-- `tst` returns on the tokens that are readable. -/
theorem returns_tst {token : Json} : Returns (tst token) ↔ ReadableToken token := by
  unfold tst ReadableToken
  cases ht : token.truthy with
  | false => exact iff_of_true ⟨_, rfl⟩ nofun
  | true =>
    cases hraw : b64Canonical token with
    | none => exact iff_of_true ⟨_, rfl⟩ nofun
    | some raw =>
      -- the search, and then the content it finds
      refine Iff.trans (b := ¬ Raises visit raw ∧ ∀ info, First visit raw info → TstShape info)
        ?_ ?_
      · rw [← returns_findTstinfo]
        simp only [← findTstinfo_eq_some_iff]
        refine returns_bind.trans ?_
        constructor
        · rintro ⟨found, hfound, h⟩
          refine ⟨⟨found, hfound⟩, fun info hinfo => ?_⟩
          obtain rfl := Except.ok.inj (hfound.symm.trans hinfo)
          obtain ⟨t, ht, -⟩ := returns_bind.mp h
          exact returns_readTstInfo.mp ⟨t, ht⟩
        · rintro ⟨⟨found, hfound⟩, h⟩
          refine ⟨found, hfound, ?_⟩
          cases found with
          | none => exact ⟨_, rfl⟩
          | some info =>
            obtain ⟨t, ht⟩ := returns_readTstInfo.mpr (h info hfound)
            exact returns_bind.mpr ⟨t, ht, _, rfl⟩
      · constructor
        · rintro h raw' - hraw'
          obtain rfl := Option.some.inj hraw'
          exact h
        · intro h
          exact h raw rfl rfl

/-! ## The other inputs -/

/-- A value that `for` goes through. -/
def isIterable : Json → Bool
  | .arr _ | .str _ | .obj _ => true
  | _ => false

/-- An anchor: a text in ASCII that `b64decode` reads. -/
def IsAnchor (a : Json) (b : Bytes) : Prop :=
  ∃ s, a = .str s ∧ (s.any fun c => 0x80 ≤ c.val) = false ∧ a2bLoop 0 0 0 s = some b

/-- `tsa_roots_base64` -/
def rootsOf (inputs : Json) : Json := (inputs.find (lit "tsa_roots_base64")).orElse (.arr [])

/-- The fields that hold a token. -/
def tokenNames : List Str := [lit "receipt_tsr_base64", lit "criteria_tsr_base64"]

/-- The signature is checked: its key is listed once and usable, and it has the form of one
by that key. -/
def SignatureChecked (inputs : Json) : Prop :=
  let signature := (inputs.find (lit "receipt")).find (lit "signature")
  let skid := strOf ((receiptOf inputs).find (lit "key_id"))
  isRepeated inputs skid = false ∧ ∃ pub sig, decoded inputs skid = some (some pub) ∧
    Ed25519Ref.keyOk pub = true ∧ b64Canonical (signature.find (lit "value")) = some sig ∧
    sig.length = 64 ∧ signature.find (lit "key_id") = .str skid

/-- The imprint of the record's token is compared with the hash of the record. -/
def StampCompared (inputs : Json) : Prop :=
  ∃ t, tst (inputs.find (lit "receipt_tsr_base64")) = .ok (.info t) ∧ t.alg = oidSha256

/-- The relying party's keys are gone through: they are given, and the record claims
independence of a producer with a key. -/
def KeysAsked (inputs : Json) : Prop :=
  let r := receiptOf inputs
  (inputs.find (lit "relying_party_keys")).isObj = true ∧
    r.find (lit "independence") = text "independent" ∧
    ((r.find (lit "parties")).find (lit "producer")).find (lit "key_id") ≠ .null

/-- What `check` asks of a record of its own form. -/
structure Answerable (R : Runtime) (H : Host) (inputs : Json) : Prop where
  tokens : ∀ name ∈ tokenNames, ReadableToken (inputs.find name)
  canonical : SignatureChecked inputs ∨ StampCompared inputs → Canonical R (receiptOf inputs)
  anchors : ∃ roots anchors, (rootsOf inputs).iter = .ok roots ∧
    List.Forall₂ IsAnchor roots anchors ∧ ∀ name ∈ tokenNames, ∀ raw,
      (inputs.find name).truthy = true → b64Canonical (inputs.find name) = some raw →
      Returns (H.evaluate raw anchors)
  listed : KeysAsked inputs → ∀ keys,
    (inputs.find (lit "relying_party_keys")).getD (lit "keys") (.arr []) = .ok keys →
    isIterable keys = true

theorem returns_iter {x : Json} : Returns x.iter ↔ isIterable x = true := by
  cases x with
  | arr | str | obj => exact iff_of_true ⟨_, rfl⟩ rfl
  | _ => exact iff_of_false nofun nofun

theorem returns_hashable {x : Json} :
    Returns (hashable x) ↔ isArr x = false ∧ x.isObj = false := by
  cases x with
  | arr => exact iff_of_false nofun fun h => by cases h.1
  | obj => exact iff_of_false nofun fun h => by cases h.2
  | _ => exact iff_of_true ⟨_, rfl⟩ ⟨rfl, rfl⟩

theorem returns_unknownForm {r : Json} :
    Returns (unknownForm r) ↔ isArr (r.find (lit "schema")) = false ∧
      (r.find (lit "schema")).isObj = false := by
  rw [← returns_hashable, unknownForm, returns_bind]
  refine exists_congr fun _ => and_iff_left ?_
  split
  · exact ⟨_, rfl⟩
  · split
    · exact ⟨_, rfl⟩
    · exact ⟨_, rfl⟩

theorem b64decode_ok {a : Json} {b : Bytes} : b64decode a = .ok b ↔ IsAnchor a b := by
  unfold b64decode IsAnchor
  split
  next s =>
    split
    next hbad =>
      refine iff_of_false nofun ?_
      rintro ⟨t, ht, hgood, -⟩
      obtain rfl := Json.str.inj ht
      cases hbad.symm.trans hgood
    next hgood =>
      rw [Bool.not_eq_true] at hgood
      have hsome : (∃ t, Json.str s = .str t ∧ (t.any fun c => 0x80 ≤ c.val) = false ∧
          a2bLoop 0 0 0 t = some b) ↔ a2bLoop 0 0 0 s = some b := by
        constructor
        · rintro ⟨t, ht, -, h⟩
          rwa [Json.str.inj ht]
        · exact fun h => ⟨s, rfl, hgood, h⟩
      rw [hsome]
      split
      next c hc => rw [hc, Except.ok.injEq, Option.some.injEq]
      next hnone => rw [hnone]; exact ⟨nofun, nofun⟩
  next hno =>
    refine iff_of_false nofun ?_
    rintro ⟨s, rfl, -⟩
    exact hno s rfl

variable {H : Host}

theorem returns_signatureStep {inputs : Json} :
    Returns (signatureStep R inputs) ↔
      (SignatureChecked inputs → Canonical R (receiptOf inputs)) := by
  unfold signatureStep SignatureChecked
  extract_lets r signature skid repeats
  split
  next hrep =>
    refine iff_of_true ⟨_, rfl⟩ fun h => ?_
    cases hrep.symm.trans h.1
  next hrep =>
    rw [Bool.not_eq_true] at hrep
    split
    next hdec =>
      refine iff_of_true ⟨_, rfl⟩ fun ⟨_, pub, sig, h, _⟩ => ?_
      cases hdec.symm.trans h
    next hdec =>
      refine iff_of_true ⟨_, rfl⟩ fun ⟨_, pub, sig, h, _⟩ => ?_
      cases hdec.symm.trans h
    next pub hdec =>
      split
      next hkey =>
        refine iff_of_true ⟨_, rfl⟩ fun ⟨_, pub', sig, h, hok, _⟩ => ?_
        obtain rfl := Option.some.inj (Option.some.inj (hdec.symm.trans h))
        rw [hok] at hkey
        cases hkey
      next hkey =>
        rw [Bool.not_eq_true, Bool.not_eq_false'] at hkey
        split
        next sig hsig =>
          split
          next hform =>
            -- the one branch that writes the record
            have hchecked : SignatureChecked inputs :=
              ⟨hrep, pub, sig, hdec, hkey, hsig, hform.1, hform.2⟩
            refine Iff.trans ?_ (forall_prop_of_true hchecked).symm
            rw [← returns_jcs]
            exact returns_bind.trans (exists_congr fun b => and_iff_left ⟨_, rfl⟩)
          next hform =>
            refine iff_of_true ⟨_, rfl⟩ fun ⟨_, _, sig', _, _, h, hlen, hid⟩ => ?_
            obtain rfl := Option.some.inj (hsig.symm.trans h)
            exact absurd ⟨hlen, hid⟩ hform
        next hsig =>
          refine iff_of_true ⟨_, rfl⟩ fun ⟨_, _, sig', _, _, h, _⟩ => ?_
          cases hsig.symm.trans h

theorem returns_receiptTimestampOf {r : Json} {rt : TstResult} :
    Returns (receiptTimestampOf R r rt) ↔
      ∀ t, rt = .info t → t.alg = oidSha256 → Canonical R r := by
  cases rt with
  | none => exact iff_of_true ⟨_, rfl⟩ nofun
  | noncanonical => exact iff_of_true ⟨_, rfl⟩ nofun
  | info t =>
    rw [receiptTimestampOf]
    split
    next halg =>
      refine iff_of_true ⟨_, rfl⟩ fun t' ht' halg' => ?_
      obtain rfl := TstResult.info.inj ht'
      exact absurd halg' halg
    next halg =>
      rw [not_not] at halg
      have hjcs : Returns (jcs R r >>= fun b =>
          (return if t.imprint = R.sha256Hex b then .imprintMatch else .imprintMismatch :
            Except PyError ReceiptTimestamp)) ↔ Canonical R r := by
        rw [← returns_jcs, returns_bind]
        exact exists_congr fun b => and_iff_left ⟨_, rfl⟩
      refine hjcs.trans ⟨fun h _ _ _ => h, fun h => h t rfl halg⟩

theorem returns_tsaOf {anchors : List Bytes} (name : String) {token : Json}
    (htst : Returns (tst token)) :
    Returns (tsaOf R H anchors name token) ↔ ∀ raw, token.truthy = true →
      b64Canonical token = some raw → Returns (H.evaluate raw anchors) := by
  unfold tsaOf
  cases ht : token.truthy with
  | false => exact iff_of_true ⟨_, rfl⟩ nofun
  | true =>
    cases hraw : b64Canonical token with
    | none => exact iff_of_true ⟨_, rfl⟩ nofun
    | some raw =>
      obtain ⟨t, ht⟩ := htst
      refine Iff.trans (b := Returns (H.evaluate raw anchors)) ?_ ?_
      · refine returns_bind.trans (exists_congr fun status => and_iff_left ?_)
        rw [ht]
        cases t <;> exact ⟨_, rfl⟩
      · constructor
        · rintro h raw' - hraw'
          rwa [← Option.some.inj hraw']
        · intro h
          exact h raw rfl rfl

theorem returns_relyingKeys {rpk : Json} (hobj : rpk.isObj = true) :
    Returns (relyingKeys rpk) ↔
      ∀ keys, rpk.getD (lit "keys") (.arr []) = .ok keys → isIterable keys = true := by
  obtain ⟨keys, hkeys⟩ : Returns (rpk.getD (lit "keys") (.arr [])) := by
    cases rpk with
    | obj kvs => exact ⟨_, rfl⟩
    | _ => cases hobj
  have hread : Returns (relyingKeys rpk) ↔ Returns keys.iter := by
    rw [relyingKeys, hkeys]
    show Returns (keys.iter >>= _) ↔ _
    refine returns_bind.trans (exists_congr fun entries => and_iff_left ?_)
    refine returns_bind.mpr ?_
    obtain ⟨bs, hbs⟩ : Returns ((entries.filter Json.isObj).mapM fun k => do
        return b64Canonical (← k.getD (lit "public_key_base64") (.str []))) := by
      refine returns_mapM.mpr fun k hk => ?_
      cases k with
      | obj kvs => exact ⟨_, rfl⟩
      | _ => cases (List.mem_filter.mp hk).2
    exact ⟨bs, hbs, _, rfl⟩
  rw [hread, returns_iter, hkeys]
  simp

theorem returns_keyFacts {inputs pk ck : Json} {claimInd : Bool} :
    Returns (keyFacts inputs pk ck claimInd) ↔
      (((inputs.find (lit "relying_party_keys")).isObj && claimInd && pk != .null) = true →
        Returns (relyingKeys (inputs.find (lit "relying_party_keys")))) := by
  unfold keyFacts
  extract_lets stated unreadable byKey keyAt collision unlisted rpk
  split
  next hasked =>
    refine Iff.trans ?_ (forall_prop_of_true hasked).symm
    exact returns_bind.trans (exists_congr fun known => and_iff_left ⟨_, rfl⟩)
  next hno => exact iff_of_true ⟨_, rfl⟩ fun h => absurd h hno

theorem returns_independenceStep {inputs : Json} :
    Returns (independenceStep R H inputs) ↔ (KeysAsked inputs → ∀ keys,
      (inputs.find (lit "relying_party_keys")).getD (lit "keys") (.arr []) = .ok keys →
      isIterable keys = true) := by
  unfold independenceStep
  extract_lets r parties producer checker stated
  have hfacts : Returns (independenceStep R H inputs) ↔ Returns (keyFacts inputs
      (producer.find (lit "key_id")) (checker.find (lit "key_id"))
      (stated == text "independent")) :=
    returns_bind.trans (exists_congr fun facts => and_iff_left ⟨_, rfl⟩)
  refine hfacts.trans (returns_keyFacts.trans ?_)
  rw [Bool.and_eq_true, Bool.and_eq_true, beq_iff_eq, bne_iff_ne, and_assoc]
  exact forall_congr' fun h => returns_relyingKeys h.1

theorem returns_tsaSignatureOf {inputs : Json}
    (htst : ∀ name ∈ tokenNames, Returns (tst (inputs.find name))) :
    Returns (tsaSignatureOf R H inputs) ↔ ∃ roots anchors, (rootsOf inputs).iter = .ok roots ∧
      List.Forall₂ IsAnchor roots anchors ∧ ∀ name ∈ tokenNames, ∀ raw,
        (inputs.find name).truthy = true → b64Canonical (inputs.find name) = some raw →
        Returns (H.evaluate raw anchors) := by
  have hanchors {roots : List Json} {anchors : List Bytes} :
      roots.mapM b64decode = .ok anchors ↔ List.Forall₂ IsAnchor roots anchors := by
    rw [mapM_ok]
    exact ⟨fun h => h.imp fun _ _ => b64decode_ok.mp, fun h => h.imp fun _ _ => b64decode_ok.mpr⟩
  have hreceipt := htst (lit "receipt_tsr_base64") (List.mem_cons_self ..)
  have hcriteria := htst (lit "criteria_tsr_base64") (by decide)
  unfold tsaSignatureOf
  extract_lets roots
  rw [returns_bind]
  refine exists_congr fun xs => ?_
  rw [returns_bind]
  constructor
  · rintro ⟨hxs, anchors, hm, h⟩
    obtain ⟨c, hc, h⟩ := returns_bind.mp h
    obtain ⟨r, hr, -⟩ := returns_bind.mp h
    refine ⟨anchors, hxs, hanchors.mp hm, List.forall_mem_cons.mpr ⟨?_, ?_⟩⟩
    · exact (returns_tsaOf _ hreceipt).mp ⟨r, hr⟩
    · exact List.forall_mem_singleton.mpr ((returns_tsaOf _ hcriteria).mp ⟨c, hc⟩)
  · rintro ⟨anchors, hxs, hall, heval⟩
    obtain ⟨hr, heval⟩ := List.forall_mem_cons.mp heval
    have hc := List.forall_mem_singleton.mp heval
    obtain ⟨c, hc⟩ := (returns_tsaOf (R := R) "criteria" hcriteria).mpr hc
    obtain ⟨r, hr⟩ := (returns_tsaOf (R := R) "receipt" hreceipt).mpr hr
    exact ⟨hxs, anchors, hanchors.mpr hall, returns_bind.mpr ⟨c, hc, returns_bind.mpr ⟨r, hr, _, rfl⟩⟩⟩

/-- The parts of a record of the known form that can raise. -/
theorem answerable_iff {inputs : Json} : Answerable R H inputs ↔
    Returns (signatureStep R inputs) ∧
      ∃ rt, tst (inputs.find (lit "receipt_tsr_base64")) = .ok rt ∧
        Returns (receiptTimestampOf R (receiptOf inputs) rt) ∧
        Returns (tst (inputs.find (lit "criteria_tsr_base64"))) ∧
        Returns (tsaSignatureOf R H inputs) ∧ Returns (independenceStep R H inputs) := by
  rw [returns_signatureStep, returns_independenceStep]
  constructor
  · rintro ⟨htokens, hcanonical, hanchors, hlisted⟩
    have htst : ∀ name ∈ tokenNames, Returns (tst (inputs.find name)) :=
      fun name hname => returns_tst.mpr (htokens name hname)
    obtain ⟨rt, hrt⟩ := htst (lit "receipt_tsr_base64") (List.mem_cons_self ..)
    refine ⟨fun h => hcanonical (.inl h), rt, hrt, ?_, htst _ (by decide),
      (returns_tsaSignatureOf htst).mpr hanchors, hlisted⟩
    refine returns_receiptTimestampOf.mpr fun t ht halg => hcanonical (.inr ⟨t, ?_, halg⟩)
    rw [hrt, ht]
  · rintro ⟨hsig, rt, hrt, hstamp, hct, htsa, hlisted⟩
    have htst : ∀ name ∈ tokenNames, Returns (tst (inputs.find name)) :=
      List.forall_mem_cons.mpr ⟨⟨rt, hrt⟩, List.forall_mem_singleton.mpr hct⟩
    refine ⟨fun name hname => returns_tst.mp (htst name hname), ?_,
      (returns_tsaSignatureOf htst).mp htsa, hlisted⟩
    rintro (h | ⟨t, ht, halg⟩)
    · exact hsig h
    · exact returns_receiptTimestampOf.mp hstamp t (Except.ok.inj (hrt.symm.trans ht)) halg

/-- A record of the known form, with no key, no result and the criteria token `06 00`: an
OID in which no number ends. -/
def emptyOidInputs : Json :=
  object [("receipt", object [("receipt", sampleReceipt []),
      ("signature", object [("key_id", text "k"), ("value", text "")])]),
    ("keys", object [("keys", .arr [])]),
    ("criteria_tsr_base64", text "BgA=")]

end Preaction.WarCheck
