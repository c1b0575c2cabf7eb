import Preaction.JcsWriter
import Preaction.LiveCheck

/-!
# `adapters/live_check.py` — the canonical envelope

`run` recomputes the envelope hash of a response over the bytes of `_jcs`, which is
`json.dumps` with sorted keys. Its docstring takes these for the bytes of RFC 8785
on strings, integers and booleans. They are, but for the order of the keys:
`json.dumps` sorts by code points, RFC 8785 by code units, and these part where two
keys of one object clash (`jcs_eq_rfc8785_iff`).

Mirroring notes:
- `canonicalEnvelope` is the suite without its texts.
- The response and the mapping are arguments, as in `readInputs`.
-/

namespace Preaction.LiveCheck

open Preaction.Py Preaction.Bip340 Preaction.Loop Rfc8785
open Preaction.Py.Json (normWith normList normKvs normList_eq_map normKvs_eq_map)

variable (R : Runtime)

/-- `_jcs(obj)` -/
def jcs (obj : Json) : Except PyError Bytes := utf8 (R.canonText obj)

/-- The response without the keys of `envelope_excludes`. -/
def reduced (kvs : List (Str × Json)) (exclude : Json) : Except PyError Json :=
  return .obj (← filterE (fun kv => return !(← containsElem exclude (.str kv.1))) kvs)

/-- A suite of the report, by its state. -/
inductive Envelope
  | pass
  | fail
  | notProvided
  deriving DecidableEq, Repr

/-- `"pass" if recomputed == declared else "fail"` -/
def compared (recomputed : Str) (declared : Json) : Envelope :=
  if (Json.str recomputed).pyEq declared then .pass else .fail

/-- What the hash is recomputed over; none where the response exposes none of it. -/
def envelopeBytes (resp exclude canonicalBytes rawClaim : Json) :
    Except PyError (Option Bytes) := do
  match resp, decide (exclude = .null) with
  | .obj kvs, false => return some (← jcs R (← reduced kvs exclude))
  | _, _ =>
    if canonicalBytes ≠ .null then
      match canonicalBytes with
      | .str t => return some (← utf8 t)
      | b => return some (← jcs R b)
    else if rawClaim ≠ .null then return some (← jcs R rawClaim)
    else return none

/-- `suites["canonical_envelope"]` -/
def canonicalEnvelope (resp exclude rawClaim : Json) (inp : Inputs) :
    Except PyError Envelope := do
  match ← envelopeBytes R resp exclude inp.canonicalBytes rawClaim with
  | some b => return compared (R.sha256Hex b) inp.envelopeHash
  | none =>
    if (← schemeName R inp.scheme) = lit "nostr-event" ∧ inp.event.truthy = true then
      return compared (← nostrEventId R inp.event) (← inp.event.get (lit "id"))
    else return .notProvided

/-! ## Values without doubles and lone surrogates -/

theorem clean_of_within {w v : Json} (h : Within w v) (hv : v.clean = true) : w.clean = true := by
  induction h with
  | refl => exact hv
  | elem hx _ ih => exact ih (cleanList_iff.mp hv _ hx)
  | member hx _ ih => exact ih (cleanKvs_iff.mp hv _ (mem_of_lookup hx)).2

theorem scalarKeys_of_clean {v : Json} (hv : v.clean = true) : ScalarKeys v := by
  intro kvs hw k hk
  obtain ⟨kx, hkx, rfl⟩ := List.mem_map.mp hk
  exact (cleanKvs_iff.mp (clean_of_within hw hv) kx hkx).1

/-- Sorting keys keeps a value clean. -/
theorem normWith_clean {v : Json} (hv : v.clean = true) : (normWith id v).clean = true := by
  induction v with
  | arr xs ih =>
    rw [normWith, normList_eq_map, Json.clean, cleanList_iff, List.forall_mem_map]
    exact fun x hx => ih x hx (cleanList_iff.mp hv x hx)
  | obj kvs ih =>
    rw [normWith, normKvs_eq_map, Json.clean, cleanKvs_iff]
    intro kx hkx
    obtain ⟨kv, hkv, rfl⟩ := List.mem_map.mp (mem_of_mem_sortKvs hkx)
    obtain ⟨hk, hx⟩ := cleanKvs_iff.mp hv kv hkv
    exact ⟨hk, ih kv hkv hx⟩
  | _ => exact hv

theorem jcsForm_clean {v : Json} (hv : v.clean = true) : (jcsForm v).clean = true := by
  induction v with
  | arr xs ih =>
    rw [jcsForm, jcsFormList_eq_map, Json.clean, cleanList_iff, List.forall_mem_map]
    exact fun x hx => ih x hx (cleanList_iff.mp hv x hx)
  | obj kvs ih =>
    rw [jcsForm, Json.clean, cleanKvs_iff]
    intro kx hkx
    obtain ⟨x, hx, hform⟩ := mem_jcsForm hkx
    obtain ⟨hk, hclean⟩ := cleanKvs_iff.mp hv _ (mem_of_lookup hx)
    exact ⟨hk, by rw [← hform]; exact ih _ (mem_of_lookup hx) hclean⟩
  | _ => exact hv

/-! ## Both texts as `print` writes them -/

theorem joinComma_print {fmt : Format} (x : Json) (xs : List Json) :
    joinComma (print fmt x :: xs.map (print fmt)) ++ lit "]" =
      print fmt x ++ printElems fmt xs := by
  induction xs generalizing x with
  | nil => rfl
  | cons y ys ih =>
    rw [List.map_cons, joinComma, List.append_assoc, ih, printElems, List.append_assoc]
    rfl

/-- A member as it is written. -/
def memberText (fmt : Format) (kx : Str × Json) : Str :=
  jsString kx.1 ++ lit ":" ++ print fmt kx.2

theorem joinComma_memberText {fmt : Format} (hsurr : fmt.surr = false) (k : Str) (x : Json)
    (kvs : List (Str × Json)) :
    joinComma (memberText fmt (k, x) :: kvs.map (memberText fmt)) ++ lit "\x7d" =
      quote fmt.surr k ++ ofChar ':' :: (print fmt x ++ printKvs fmt kvs) := by
  induction kvs generalizing k x with
  | nil =>
    rw [hsurr, List.map_nil, joinComma, memberText, List.append_assoc, List.append_assoc]
    rfl
  | cons kv kvs ih =>
    rw [List.map_cons, joinComma, List.append_assoc, ih, printKvs, hsurr, memberText,
      List.append_assoc, List.append_assoc, List.append_assoc]
    rfl

/-- The text of a form is what `print` writes of it. -/
theorem formText_print {fmt : Format} (hsurr : fmt.surr = false) (a : Json) :
    formText (print fmt) a = print fmt a := by
  induction a with
  | null => rfl
  | bool b => cases b <;> rfl
  | int n => rfl
  | float x => rfl
  | str s => rw [formText, print, hsurr, jsString]
  | arr xs ih =>
    rw [formText, formTexts_eq_map, List.map_congr_left ih]
    cases xs with
    | nil => rfl
    | cons x xs =>
      rw [List.map_cons, List.append_assoc, joinComma_print, print]
      rfl
  | obj kvs ih =>
    have hmembers : memberTexts (print fmt) kvs = kvs.map (memberText fmt) := by
      rw [memberTexts_eq_map]
      exact List.map_congr_left fun kx hkx => by rw [ih kx hkx, memberText]
    rw [formText, hmembers]
    cases kvs with
    | nil => rfl
    | cons kv kvs =>
      rw [List.map_cons, List.append_assoc, joinComma_memberText hsurr, print]
      rfl

/-! ## The two orders -/

/-- No two keys of one object within the value clash. -/
def NoClash (v : Json) : Prop :=
  ∀ kvs, Within (.obj kvs) v → ∀ k ∈ kvs.map (·.1), ∀ l ∈ kvs.map (·.1), ¬ Clash k l

/-- Members sorted by code units are sorted by code points where no keys clash. -/
theorem sortUnits_keySorted_iff {l : List (Str × Json)} (hl : KeySorted l)
    (hscalar : ∀ k ∈ l.map (·.1), Scalar k) : KeySorted (Ecma.sortUnits l) ↔
      ∀ k ∈ l.map (·.1), ∀ m ∈ l.map (·.1), ¬ Clash k m := by
  have hperm : (Ecma.sortUnits l).Perm l := List.perm_insertionSort ..
  have hunits : (Ecma.sortUnits l).Pairwise fun a b => UnitsLe a.1 b.1 := by
    have hsorted := List.pairwise_insertionSort UnitsLe (l.map (·.1))
    rw [show (l.map (·.1)).insertionSort UnitsLe = (Ecma.sortUnits l).map (·.1) from
      keys_sortUnits hscalar (List.Perm.refl _)] at hsorted
    exact List.pairwise_map.mp hsorted
  constructor
  · intro hsorted k hk m hm hclash
    -- the order by code units leaves no pair that clashes, the one by code points none in reverse
    have hunits' : (Ecma.sortUnits l).Pairwise fun a b => ¬ Clash a.1 b.1 :=
      hunits.imp fun {a b} hab (h : Clash a.1 b.1) => by
        have : Ecma.unitsLt b.1 a.1 = true := h.orders.2
        rw [hab] at this
        cases this
    have hpoints : (Ecma.sortUnits l).Pairwise fun a b => ¬ Clash b.1 a.1 :=
      hsorted.imp fun {a b} hab h => by
        have := strLt_trans hab h.orders.1
        rw [strLt_irrefl] at this
        cases this
    have hrefl : ∀ a ∈ Ecma.sortUnits l, ¬ Clash a.1 a.1 := fun a _ h => by
      have := h.orders.1
      rw [strLt_irrefl] at this
      cases this
    obtain ⟨a, ha, rfl⟩ := List.mem_map.mp hk
    obtain ⟨b, hb, rfl⟩ := List.mem_map.mp hm
    exact hunits'.forall_of_forall_of_flip hrefl hpoints (hperm.mem_iff.mpr ha)
      (hperm.mem_iff.mpr hb) hclash
  · intro hno
    have hnodup : (Ecma.sortUnits l).Pairwise fun a b => a.1 ≠ b.1 :=
      List.pairwise_map.mp ((hperm.map _).nodup_iff.mpr (Ecma.nodup_keys hl))
    refine List.Pairwise.imp_of_mem (fun {a b} ha hb hab => ?_) (hunits.and hnodup)
    have hak := List.mem_map_of_mem (f := (·.1)) (hperm.mem_iff.mp ha)
    have hbk := List.mem_map_of_mem (f := (·.1)) (hperm.mem_iff.mp hb)
    have hunits_ne : units b.1 ≠ units a.1 := fun heq =>
      hab.2 (units_injective (hscalar _ hbk) (hscalar _ hak) heq).symm
    rw [← strLt_units (hscalar _ hak) (hscalar _ hbk) (hno _ hak _ hbk) (hno _ hbk _ hak)]
    exact strLt_total hunits_ne hab.1

theorem NoClash.elem {x : Json} {xs : List Json} (h : NoClash (.arr xs)) (hx : x ∈ xs) :
    NoClash x :=
  fun kvs hw => h kvs (.elem hx hw)

theorem NoClash.member {k : Str} {x : Json} {kvs : List (Str × Json)} (h : NoClash (.obj kvs))
    (hx : kvs.lookup k = some x) : NoClash x :=
  fun lvs hw => h lvs (.member hx hw)

/-- The two forms of a value are one where no keys clash. -/
theorem normWith_eq_jcsForm_iff {v : Json} (hv : ScalarKeys v) :
    normWith id v = jcsForm v ↔ NoClash v := by
  have hleaf {v : Json} (harr : ∀ xs, v ≠ .arr xs) (hobj : ∀ kvs, v ≠ .obj kvs) : NoClash v :=
    fun kvs hw => absurd (hw.eq_leaf harr hobj).symm (hobj kvs)
  induction v with
  | arr xs ih =>
    rw [normWith, normList_eq_map, jcsForm, jcsFormList_eq_map, Json.arr.injEq,
      List.map_inj_left]
    have hx {x : Json} (hx : x ∈ xs) := ih x hx fun kvs hw => hv kvs (.elem hx hw)
    constructor
    · rintro h kvs (_ | ⟨hmem, hw⟩)
      exact (hx hmem).mp (h _ hmem) kvs hw
    · exact fun h x hmem => (hx hmem).mpr (h.elem hmem)
  | obj kvs ih =>
    rw [normWith, jcsForm, Json.obj.injEq]
    have hx {k : Str} {x : Json} (hx : kvs.lookup k = some x) :=
      ih (k, x) (mem_of_lookup hx) fun lvs hw => hv lvs (.member hx hw)
    have hkeys (k : Str) : k ∈ (sortKvs (jcsFormKvs kvs)).map (·.1) ↔ k ∈ kvs.map (·.1) := by
      rw [mem_keys_iff, mem_keys_iff, lookup_sortKvs, lookup_jcsFormKvs]
      simp only [Option.map_eq_some_iff]
      constructor
      · intro h
        obtain ⟨_, x, hx, _⟩ := h
        exact ⟨x, hx⟩
      · intro h
        obtain ⟨x, hx⟩ := h
        exact ⟨_, x, hx, rfl⟩
    have hsorted := sortUnits_keySorted_iff (sortKvs_keySorted (jcsFormKvs kvs)) fun k hk =>
      hv kvs .refl k ((hkeys k).mp hk)
    simp only [hkeys] at hsorted
    constructor
    · intro h lvs hw
      cases hw with
      | refl =>
        refine hsorted.mp ?_
        rw [← h]
        exact sortKvs_keySorted _
      | @member k _ _ hlook hw =>
        have hlooks := congrArg (List.lookup k) h
        rw [lookup_sortKvs, Json.lookup_normKvs, lookup_jcsForm, hlook] at hlooks
        exact (hx hlook).mp (Option.some.inj hlooks) lvs hw
    · intro h
      refine (sortKvs_keySorted _).ext (hsorted.mpr (h kvs .refl)) fun k => ?_
      rw [lookup_sortKvs, Json.lookup_normKvs, lookup_jcsForm]
      exact Option.map_congr fun x hlook => (hx hlook).mpr (h.member hlook)
  | _ => exact iff_of_true rfl (hleaf (by simp) (by simp))

/-! ## The bytes -/

variable {R}

/-- The bytes of `_jcs` of a clean value. -/
theorem jcs_clean {v : Json} (hclean : v.clean = true) :
    jcs R v = .ok (utf8Bytes (print ⟨false, Runtime.floatToken⟩ (normWith id v))) := by
  obtain ⟨heq, hscalar⟩ := print_clean (normWith_clean hclean) R.dumpsFormat
    ⟨false, Runtime.floatToken⟩
  rw [jcs, Runtime.canonText, heq, utf8_of_scalar hscalar]

/-- The bytes of RFC 8785 of a clean value with integers below `2^53`. -/
theorem rfc8785_clean {v : Json} (hclean : v.clean = true)
    (hint : ∀ n, Within (.int n) v → n.natAbs < 2 ^ 53) :
    (do utf8 (← Rfc8785.jcs R v)) =
      .ok (utf8Bytes (print ⟨false, Runtime.floatToken⟩ (jcsForm v))) := by
  have htext : Rfc8785.jcs R v = .ok (print ⟨false, Runtime.floatToken⟩ (jcsForm v)) := by
    rw [jcs_eq_write, ← formText_print rfl]
    refine write_eq (scalarKeys_of_clean hclean) fun x hw hx => ?_
    cases x with
    | int n =>
      rw [jsNumber, jsInt, if_pos (hint n hw)]
      rfl
    | float x => cases clean_of_within hw hclean
    | _ => cases hx
  obtain ⟨-, hscalar⟩ := print_clean (jcsForm_clean hclean) ⟨false, Runtime.floatToken⟩
    ⟨false, Runtime.floatToken⟩
  rw [htext]
  exact utf8_of_scalar hscalar

/-- On values of strings without lone surrogates, booleans and integers below `2^53`
the bytes of `_jcs` are those of RFC 8785 exactly where no two keys of one object
clash. -/
theorem jcs_eq_rfc8785_iff {v : Json} (hclean : v.clean = true)
    (hint : ∀ n, Within (.int n) v → n.natAbs < 2 ^ 53) :
    jcs R v = (do utf8 (← Rfc8785.jcs R v)) ↔ NoClash v := by
  rw [jcs_clean hclean, rfc8785_clean hclean hint,
    ← normWith_eq_jcsForm_iff (scalarKeys_of_clean hclean)]
  constructor
  · intro h
    exact print_injective (Runtime.floatToken_lawful false)
      (utf8Bytes_injective (Except.ok.inj h))
  · intro h
    rw [h]

/-- A claim with a nested object, whose keys sort alike. -/
def sampleClaim : Json :=
  object [("subject", object [("id", .str (lit "a")), ("é", .bool true)]), ("amount", .int 12)]

theorem jcs_eq_rfc8785_sample : jcs Runtime.sample sampleClaim =
    (do utf8 (← Rfc8785.jcs Runtime.sample sampleClaim)) ↔ NoClash sampleClaim := by
  refine jcs_eq_rfc8785_iff (by decide) ?_
  rintro n (_ | _ | ⟨hx, hw⟩)
  obtain ⟨-, rfl⟩ | ⟨-, rfl⟩ : _ ∨ _ := by
    simpa [sampleClaim, object] using mem_of_lookup hx
  · rcases hw with _ | _ | ⟨hx, hw⟩
    obtain ⟨-, rfl⟩ | ⟨-, rfl⟩ : _ ∨ _ := by
      simpa using mem_of_lookup hx
    · cases hw
    · cases hw
  · cases hw
    decide

/-- Two keys that clash: `U+E000` is below `U+10000`, and its code unit above the first
one of that. -/
def clashingClaim : Json := .obj [([0xE000], .bool true), ([0x10000], .bool false)]

theorem clashingClaim_differs : clashingClaim.clean = true ∧
    (∀ n, Within (.int n) clashingClaim → n.natAbs < 2 ^ 53) ∧
    jcs Runtime.sample clashingClaim ≠ (do utf8 (← Rfc8785.jcs Runtime.sample clashingClaim)) := by
  refine ⟨by decide, ?_, by decide +kernel⟩
  rintro n (_ | _ | ⟨hx, hw⟩)
  obtain ⟨-, rfl⟩ | ⟨-, rfl⟩ : _ ∨ _ := by
    simpa [clashingClaim] using mem_of_lookup hx
  · cases hw
  · cases hw

/-- The hash recomputed over a raw claim is that of its RFC 8785 bytes. -/
theorem canonicalEnvelope_rawClaim {resp v : Json} {inp : Inputs} (hclean : v.clean = true)
    (hint : ∀ n, Within (.int n) v → n.natAbs < 2 ^ 53) (hv : NoClash v) (hnull : v ≠ .null)
    (hbytes : inp.canonicalBytes = .null) :
    canonicalEnvelope R resp .null v inp = (do
      let t ← Rfc8785.jcs R v
      return compared (R.sha256Hex (← utf8 t)) inp.envelopeHash) := by
  have hforms := (normWith_eq_jcsForm_iff (scalarKeys_of_clean hclean)).mpr hv
  have hrfc := rfc8785_clean (R := R) hclean hint
  rw [← hforms, ← jcs_clean (R := R) hclean] at hrfc
  have hbody : envelopeBytes R resp .null .null v = (do return some (← jcs R v)) := by
    unfold envelopeBytes
    rw [decide_eq_true rfl]
    cases resp <;> exact (if_neg (by simp)).trans (if_pos hnull)
  unfold canonicalEnvelope
  rw [hbytes, hbody, ← hrfc]
  cases Rfc8785.jcs R v with
  | error e => rfl
  | ok t =>
    change ((utf8 t >>= fun b => pure (some b)) >>= _) = (utf8 t >>= _)
    cases utf8 t with
    | error e => rfl
    | ok b => rfl

end Preaction.LiveCheck
