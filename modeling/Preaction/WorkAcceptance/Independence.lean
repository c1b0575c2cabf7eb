import Preaction.WorkAcceptance.Verdict

/-!
# What an accepted claim of independence says of the keys

A record without problem codes that states `independent`, and whose producer
states a key id, names two listed keys: the checker's, under which the record
verifies, and the producer's. Each id is listed once, and the two keys are other
bytes (`independent_keys`).

The facts come from three places: step 2 asks for the key of the signed id, the
comparison after it makes that id the checker's, and step 8 derives `independent`
only where no rule about keys speaks against it.
-/

namespace Preaction.WarCheck

open Preaction.Py Preaction.Loop Json

variable {R : Runtime} {H : Host} {inputs : Json}

/-- `parties.checker` -/
def checkerOf (inputs : Json) : Json := ((receiptOf inputs).find (lit "parties")).find (lit "checker")

/-- `parties.producer` -/
def producerOf (inputs : Json) : Json :=
  ((receiptOf inputs).find (lit "parties")).find (lit "producer")

/-- The id is listed once, with a canonical key of these bytes. -/
structure Listed (inputs : Json) (kid : Str) (pub : Bytes) : Prop where
  once : (keyIds inputs).count kid = 1
  entry : ∃ k ∈ keyList inputs, strOf (k.find (lit "key_id")) = kid ∧
    b64Canonical (k.find (lit "public_key_base64")) = some pub

/-- The signature of the record verifies under the key. -/
def SignedBy (R : Runtime) (inputs : Json) (pub : Bytes) : Prop :=
  ∃ sig msg, b64Canonical (((inputs.find (lit "receipt")).find (lit "signature")).find
      (lit "value")) = some sig ∧
    jcs R (receiptOf inputs) = .ok msg ∧ Ed25519Ref.verify R pub msg sig = true

/-! ## The list of keys -/

theorem decoded_some {kid : Str} {pub : Bytes} (h : decoded inputs kid = some (some pub)) :
    ∃ k ∈ keyList inputs, strOf (k.find (lit "key_id")) = kid ∧
      b64Canonical (k.find (lit "public_key_base64")) = some pub := by
  obtain ⟨k, hk, hpub⟩ := Option.map_eq_some_iff.mp h
  exact ⟨k, List.mem_of_find?_eq_some hk, of_decide_eq_true (List.find?_some
    (p := fun k : Json => strOf (k.find (lit "key_id")) = kid) hk), hpub⟩

/-- An id that is listed has a key, unless the key is not canonical. -/
theorem exists_decoded {kid : Str} (h : (keyIds inputs).count kid = 1)
    (hread : decoded inputs kid ≠ some none) : ∃ pub, decoded inputs kid = some (some pub) := by
  unfold decoded at hread ⊢
  cases hf : (keyList inputs).find? fun k => strOf (k.find (lit "key_id")) = kid with
  | none =>
    have hmem : kid ∈ keyIds inputs := List.count_pos_iff.mp (by omega)
    obtain ⟨k, hk, hkid⟩ := List.mem_map.mp hmem
    exact absurd (decide_eq_true hkid) (List.find?_eq_none.mp hf k hk)
  | some k =>
    rw [hf] at hread
    cases hb : b64Canonical (k.find (lit "public_key_base64")) with
    | none => exact absurd (congrArg some hb) hread
    | some pub => exact ⟨pub, congrArg some hb⟩

/-! ## The steps -/

theorem signatureStep_nil {sig : Bool × List Problem} (h : signatureStep R inputs = .ok sig)
    (hp : sig.2 = []) :
    ∃ pub, decoded inputs (strOf ((receiptOf inputs).find (lit "key_id"))) = some (some pub) ∧
      SignedBy R inputs pub := by
  have hrefused {valid : Bool} {ps : List Problem} {p : Problem}
      (hs : (valid, ps ++ [p]) = sig) : False := by
    rw [← hs] at hp
    exact absurd (List.append_eq_nil_iff.mp hp).2 (List.cons_ne_nil _ _)
  unfold signatureStep at h
  dsimp only at h
  split at h
  next => exact (hrefused (Except.ok.inj h)).elim
  next =>
    split at h
    next => exact (hrefused (Except.ok.inj h)).elim
    next => exact (hrefused (Except.ok.inj h)).elim
    next pub hpub =>
      split at h
      next => exact (hrefused (Except.ok.inj h)).elim
      next =>
        split at h
        next s hs =>
          split at h
          next =>
            obtain ⟨msg, hmsg, h⟩ := bind_ok.mp h
            obtain ⟨valid, hvalid, h⟩ := bind_ok.mp h
            obtain rfl := Except.ok.inj hvalid
            -- a signature that is not valid is a problem
            by_cases hv : Ed25519Ref.verify R pub msg s = true
            · exact ⟨pub, hpub, s, msg, hs, hmsg, hv⟩
            · rw [if_neg hv] at h
              exact (hrefused (Except.ok.inj h)).elim
          next => exact (hrefused (Except.ok.inj h)).elim
        next => exact (hrefused (Except.ok.inj h)).elim

theorem deriveIndependence_independent {pn cn : Option Str} {k : KeyFacts}
    (h : deriveIndependence pn cn k = .independent) : k.collision = false ∧ k.keyRule = false := by
  unfold deriveIndependence at h
  split at h
  next => cases h
  next n =>
    split at h
    next => cases h
    next =>
      split at h
      next => cases h
      next hno =>
        rw [not_or, not_or, Bool.not_eq_true, Bool.not_eq_true] at hno
        exact hno.2

theorem Independence.eq_independent {i : Independence} (h : i.text = lit "independent") :
    i = .independent := by
  cases i with
  | undeclared => exact absurd h (by decide)
  | selfChecked => exact absurd h (by decide)
  | independent => rfl

/-- What step 8 says of the parties' keys where it derives `independent`. -/
theorem keyFacts_clear {pk ck : Json} {k : KeyFacts} (h : keyFacts inputs pk ck true = .ok k)
    (hcollision : k.collision = false) (hrule : k.keyRule = false) :
    (∀ kid ∈ statedKeys pk ck, (keyIds inputs).count kid = 1 ∧ decoded inputs kid ≠ some none) ∧
      (pk ≠ .null → ck ≠ .null → ∀ pub, decoded inputs (strOf pk) = some (some pub) →
        decoded inputs (strOf ck) ≠ some (some pub)) := by
  unfold keyFacts at h
  dsimp only at h
  split at h
  case' isTrue => obtain ⟨known, -, h⟩ := bind_ok.mp h
  all_goals
    obtain ⟨unknown, -, h⟩ := bind_ok.mp h
    obtain rfl := Except.ok.inj h
    simp only [Bool.or_eq_false_iff, Bool.true_and] at hrule
    obtain ⟨⟨⟨hread, -⟩, hlisted⟩, -⟩ := hrule
    refine ⟨fun kid hkid => ⟨?_, ?_⟩, fun hpk hck pub hp hc => ?_⟩
    · have hone := List.any_eq_false.mp hlisted kid hkid
      rw [Bool.or_eq_true, not_or, bne_iff_ne, not_not] at hone
      exact hone.2
    · intro hnone
      exact List.any_eq_false.mp hread kid hkid (beq_iff_eq.mpr hnone)
    · -- two keys of the same bytes are a collision
      simp only [beq_eq_false_iff_ne.mpr hpk, beq_eq_false_iff_ne.mpr hck, hp, hc, bne,
        Bool.not_false, Bool.true_and, Bool.or_eq_false_iff] at hcollision
      exact absurd hcollision.2 (by simp)

theorem independenceStep_nil {ind : List Problem × List Warning}
    (h : independenceStep R H inputs = .ok ind) (hp : ind.1 = [])
    (hstated : (receiptOf inputs).find (lit "independence") = text "independent") :
    ∃ k, keyFacts inputs ((producerOf inputs).find (lit "key_id"))
        ((checkerOf inputs).find (lit "key_id")) true = .ok k ∧
      k.collision = false ∧ k.keyRule = false := by
  unfold independenceStep at h
  dsimp only at h
  rw [hstated, beq_self_eq_true] at h
  obtain ⟨k, hk, h⟩ := bind_ok.mp h
  rw [← Except.ok.inj h] at hp
  obtain ⟨-, hconsistent⟩ := List.append_eq_nil_iff.mp hp
  refine ⟨k, hk, ?_⟩
  by_contra hno
  rw [if_neg] at hconsistent
  · cases hconsistent
  · intro hderived
    have hind := Independence.eq_independent (Json.str.inj hderived).symm
    exact hno (deriveIndependence_independent hind)

/-- The type check of the ids the parties state. -/
theorem partyKeys_of_typesOk (h : typesOk inputs = true) :
    (∃ s, (receiptOf inputs).find (lit "key_id") = .str s) ∧
      ((producerOf inputs).find (lit "key_id") = .null ∨
        ∃ s, (producerOf inputs).find (lit "key_id") = .str s) := by
  unfold typesOk at h
  simp only [Bool.and_eq_true, List.all_cons, and_assoc] at h
  obtain ⟨-, -, -, -, -, hkey, -, -, -, -, -, -, -, hproducer, -⟩ := h
  refine ⟨exists_of_isStr hkey, ?_⟩
  rcases Bool.or_eq_true _ _ |>.mp hproducer with hnull | hstr
  · exact Or.inl (beq_iff_eq.mp hnull)
  · exact Or.inr (exists_of_isStr hstr)

/-! ## The two keys -/

/-- A record without problem codes that states `independent` and names its producer's key:
it verifies under the one key listed for the checker, and the producer's key is listed
once and has other bytes. -/
theorem independent_keys {rep : Report} (h : check R H inputs = .ok (.report rep))
    (hp : rep.problems = []) (hstated : rep.independence = text "independent")
    (hproducer : (producerOf inputs).find (lit "key_id") ≠ .null) :
    ∃ pk ck pub pub', (producerOf inputs).find (lit "key_id") = .str pk ∧
      (checkerOf inputs).find (lit "key_id") = .str ck ∧ Listed inputs ck pub ∧
      SignedBy R inputs pub ∧ Listed inputs pk pub' ∧ pub' ≠ pub := by
  obtain ⟨htypes, sig, rt, stamp, ct, ind, hrep⟩ := check_report h
  have hnil := nil_of_eraseDups (hrep.problems.symm.trans hp)
  simp only [List.append_eq_nil_iff] at hnil
  obtain ⟨⟨⟨⟨⟨⟨hsignature, hsigner⟩, -⟩, -⟩, -⟩, hindependence⟩, -⟩ := hnil
  obtain ⟨⟨ck, hck⟩, hpk⟩ := partyKeys_of_typesOk htypes
  obtain ⟨pk, hpk⟩ := hpk.resolve_left hproducer
  -- the signed id is the checker's
  have hchecker : (checkerOf inputs).find (lit "key_id") = .str ck := by
    unfold signerStep at hsigner
    by_contra hne
    rw [if_pos] at hsigner
    · cases hsigner
    · rw [hck]
      exact hne
  obtain ⟨pub, hpub, hsigned⟩ := signatureStep_nil hrep.signature hsignature
  rw [hck] at hpub
  obtain ⟨k, hk, hcollision, hrule⟩ := independenceStep_nil hrep.independence hindependence
    (hrep.independenceStated.symm.trans hstated)
  obtain ⟨hlisted, hother⟩ := keyFacts_clear hk hcollision hrule
  rw [hpk, hchecker] at hlisted hother
  obtain ⟨hpkOnce, hpkRead⟩ := hlisted pk (List.mem_cons_self ..)
  obtain ⟨hckOnce, -⟩ := hlisted ck (List.mem_cons_of_mem _ (List.mem_cons_self ..))
  obtain ⟨pub', hpub'⟩ := exists_decoded hpkOnce hpkRead
  refine ⟨pk, ck, pub, pub', hpk, hchecker, ⟨hckOnce, decoded_some hpub⟩, hsigned,
    ⟨hpkOnce, decoded_some hpub'⟩, ?_⟩
  intro hsame
  rw [hsame] at hpub'
  exact hother nofun nofun pub hpub' hpub

/-! ## A record of two parties -/

/-- The member of an object, set. -/
def put (k : String) (v : Json) : Json → Json
  | .obj kvs => .obj (setKey (lit k) v kvs)
  | j => j

/-- The sample record of an independent check of what another party produced. -/
def independentReceipt : Json :=
  put "parties" (object [("checker", object [("name", text "C"), ("key_id", text "k")]),
      ("producer", object [("name", text "P"), ("key_id", text "p")])])
    (put "independence" (text "independent") (sampleReceipt [sampleResult true "pass"]))

def independentInputs : Json :=
  let inputs := sampleInputs [sampleResult true "pass"]
  put "keys" (object [("keys", .arr
      [object [("key_id", text "k"),
        ("public_key_base64", text "XSFId8gT5dtkPSsZ6wqhzur/njfDpwkUfWtu6OaQVmY=")],
      object [("key_id", text "p"),
        ("public_key_base64", text "AAAAAAAAAAAAAAAAAAAAAAAAAAAAAAAAAAAAAAAAAAA=")]])])
    (put "receipt" (put "receipt" independentReceipt (inputs.find (lit "receipt"))) inputs)

/-- The outcome is a report without problem codes that states `independent`. -/
def statesIndependent : Except PyError Outcome → Bool
  | .ok (.report rep) => rep.problems.isEmpty && rep.independence == text "independent"
  | _ => false

theorem independentInputs_keys : ∃ pk ck pub pub',
    (producerOf independentInputs).find (lit "key_id") = .str pk ∧
      (checkerOf independentInputs).find (lit "key_id") = .str ck ∧
      Listed independentInputs ck pub ∧ SignedBy Ed25519Ref.constantRuntime independentInputs pub ∧
      Listed independentInputs pk pub' ∧ pub' ≠ pub := by
  have hrun : statesIndependent (check Ed25519Ref.constantRuntime asciiHost independentInputs) =
      true := by decide +kernel
  unfold statesIndependent at hrun
  split at hrun
  next rep hrep =>
    rw [Bool.and_eq_true] at hrun
    exact independent_keys hrep (List.isEmpty_iff.mp hrun.1) (beq_iff_eq.mp hrun.2)
      (by decide +kernel)
  next => cases hrun

end Preaction.WarCheck
