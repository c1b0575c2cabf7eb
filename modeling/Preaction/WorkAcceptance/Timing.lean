import Preaction.WorkAcceptance.SignedTime
import Preaction.WorkAcceptance.Verdict

/-!
# The order of commitment and check

Step 5 compares milliseconds: the commitment is rounded up before the accuracy
of its token is added, the check is rounded down after the accuracy of its token
is taken away. What is claimed by `yes` is about the exact instants, and neither
rounding loses it (`committedBefore_exact`): each errs to the side of `no`.

Mirroring notes:
- The exact instants are rational; `msUp` and `msDown` are the only roundings.
- A token is compared with another one by what `tst` reads from it.
-/

namespace Preaction.WarCheck

open Preaction.Py Preaction.Loop Json

variable {R : Runtime} {H : Host}

/-! ## The exact instants -/

section Instants

variable (R : Runtime) (r : Json)

/-- The token is a SHA-256 time-stamp over the record. -/
def coversRecord (t : Tst) : Bool :=
  t.alg == oidSha256 && (jcs R r).toOption.any fun b => t.imprint == R.sha256Hex b

/-- The latest instant the criteria were committed at. -/
def latestCommitment (ct : TstResult) : Option Rat :=
  match usableToken R r ct with
  | some (tc, acc) => some (tc + acc)
  | none => rfcTime R ((r.find (lit "criteria")).find (lit "committed_at"))

/-- The earliest instant a covering record token with a usable time allows. -/
def recordTime (rt : TstResult) : Option Rat :=
  match rt with
  | .info t => if coversRecord R r t then (genTime R t.gen).map (· - t.acc) else none
  | _ => none

/-- The earliest instant the check was made at. -/
def earliestCheck (rt : TstResult) : Option Rat :=
  (rfcTime R (r.find (lit "issued_utc"))).map fun issued =>
    match recordTime R r rt with
    | some t => min issued t
    | none => issued

end Instants

/-! ## The roundings -/

theorem le_msUp (x : Rat) : x * 1000 ≤ msUp x := Rat.le_ceil

theorem msDown_le (x : Rat) : msDown x ≤ x * 1000 := Rat.floor_le _

theorem msDown_mono {x y : Rat} (h : x ≤ y) : msDown x ≤ msDown y := by
  unfold msDown
  have hmul : x * 1000 ≤ y * 1000 := by linarith
  exact_mod_cast Rat.le_floor_iff.mpr ((msDown_le x).trans hmul)

/-- The stamp says whether the token covers the record. -/
theorem receiptTimestampOf_info {r : Json} {t : Tst} {stamp : ReceiptTimestamp}
    (h : receiptTimestampOf R r (.info t) = .ok stamp) :
    stamp = .imprintMatch ↔ coversRecord R r t = true := by
  unfold receiptTimestampOf at h
  unfold coversRecord
  dsimp only at h
  by_cases halg : t.alg = oidSha256
  · rw [if_neg (not_not.mpr halg)] at h
    obtain ⟨b, hb, h⟩ := bind_ok.mp h
    rw [hb, halg, beq_self_eq_true, Bool.true_and]
    show _ ↔ (t.imprint == R.sha256Hex b) = true
    rw [beq_iff_eq, ← Except.ok.inj h]
    by_cases himp : t.imprint = R.sha256Hex b
    · exact iff_of_true (if_pos himp) himp
    · exact iff_of_false (by rw [if_neg himp]; decide) himp
  · rw [if_pos halg] at h
    rw [← Except.ok.inj h, beq_eq_false_iff_ne.mpr halg, Bool.false_and]
    exact iff_of_false (by decide) (by decide)

/-- The reference time is the earlier of two roundings down. -/
theorem referenceMs_eq {r : Json} {rt : TstResult} {stamp : ReceiptTimestamp}
    (h : receiptTimestampOf R r rt = .ok stamp) :
    referenceMs R r rt stamp = (rfcTime R (r.find (lit "issued_utc"))).map fun issued =>
      match recordTime R r rt with
      | some t => min (msDown issued) (msDown t)
      | none => msDown issued := by
  unfold referenceMs recordTime
  congr 1
  funext issued
  cases rt with
  | info t =>
    have hcov := receiptTimestampOf_info h
    dsimp only
    cases hg : genTime R t.gen with
    | none =>
      by_cases hc : coversRecord R r t = true
      · rw [if_pos hc]; rfl
      · rw [if_neg hc]
    | some tr =>
      by_cases hc : coversRecord R r t = true
      · rw [if_pos hc, Option.map_some]
        exact if_pos (hcov.mpr hc)
      · rw [if_neg hc]
        exact if_neg fun hs => hc (hcov.mp hs)
  | _ => rfl

/-! ## Soundness -/

theorem commitmentStep_sound {r : Json} {ct : TstResult} {c : Rat}
    (h : (commitmentStep R r ct).1 = some c) :
    ∃ x, latestCommitment R r ct = some x ∧ x * 1000 ≤ c := by
  unfold commitmentStep at h
  unfold latestCommitment
  cases hu : usableToken R r ct with
  | some p =>
    obtain ⟨tc, acc⟩ := p
    rw [hu] at h
    obtain rfl := Option.some.inj h
    have hup := le_msUp tc
    exact ⟨tc + acc, rfl, by linarith⟩
  | none =>
    rw [hu] at h
    obtain ⟨x, hx, rfl⟩ := Option.map_eq_some_iff.mp h
    exact ⟨x, hx, le_msUp x⟩

theorem referenceMs_sound {r : Json} {rt : TstResult} {stamp : ReceiptTimestamp} {m : Rat}
    (hstamp : receiptTimestampOf R r rt = .ok stamp) (h : referenceMs R r rt stamp = some m) :
    ∃ x, earliestCheck R r rt = some x ∧ m ≤ x * 1000 := by
  rw [referenceMs_eq hstamp] at h
  obtain ⟨issued, hissued, rfl⟩ := Option.map_eq_some_iff.mp h
  unfold earliestCheck
  rw [hissued]
  refine ⟨_, rfl, ?_⟩
  have hdown := msDown_le issued
  cases recordTime R r rt with
  | none => exact hdown
  | some t =>
    have ht := msDown_le t
    dsimp only
    rcases le_total issued t with hle | hle
    · rw [min_eq_left hle]
      exact (min_le_left _ _).trans hdown
    · rw [min_eq_right hle]
      exact (min_le_right _ _).trans ht

theorem orderStep_true {c m : Option Rat} (h : (orderStep c m).1 = true) :
    ∃ x y, c = some x ∧ m = some y ∧ x < y := by
  unfold orderStep at h
  split at h
  next x y =>
    split at h
    next hlt => exact ⟨x, y, rfl, rfl, hlt⟩
    next => cases h
  next => cases h

theorem orderStep_of_lt {x y : Rat} (h : x < y) : (orderStep (some x) (some y)).1 = true := by
  show (if x < y then (true, []) else (false, [Problem.criteriaCommittedAfterCheck])).1 = true
  rw [if_pos h]

/-! ## Monotonicity -/

/-- The same token, or one that states a larger accuracy. -/
inductive Raised : TstResult → TstResult → Prop
  | same (t : TstResult) : Raised t t
  | accuracy {t : Tst} {acc : Rat} (h : t.acc ≤ acc) : Raised (.info t) (.info { t with acc := acc })

/-- A covering record token where there was none. -/
def Added (R : Runtime) (r : Json) (rt rt' : TstResult) : Prop :=
  (∀ t, rt = .info t → coversRecord R r t = false) ∧
    ∃ t, rt' = .info t ∧ coversRecord R r t = true

theorem usableToken_raise (r : Json) (t : Tst) (acc : Rat) :
    usableToken R r (.info { t with acc := acc }) =
      (usableToken R r (.info t)).map fun p => (p.1, acc) := by
  show (if coversCriteria r t then (genTime R t.gen).map (·, acc) else none) =
    (if coversCriteria r t then (genTime R t.gen).map (·, t.acc) else none).map _
  by_cases hc : coversCriteria r t = true
  · rw [if_pos hc, if_pos hc, Option.map_map]
    rfl
  · rw [if_neg hc, if_neg hc, Option.map_none]

theorem acc_of_usableToken {r : Json} {t : Tst} {p : Rat × Rat}
    (h : usableToken R r (.info t) = some p) : p.2 = t.acc := by
  unfold usableToken at h
  dsimp only at h
  split at h
  next =>
    obtain ⟨g, -, rfl⟩ := Option.map_eq_some_iff.mp h
    rfl
  next => cases h

/-- A raised accuracy only defers the commitment. -/
theorem commitmentStep_mono {r : Json} {ct ct' : TstResult} (h : Raised ct ct') {c' : Rat}
    (hc : (commitmentStep R r ct').1 = some c') :
    ∃ c, (commitmentStep R r ct).1 = some c ∧ c ≤ c' := by
  cases h with
  | same => exact ⟨c', hc, le_rfl⟩
  | @accuracy t acc hacc =>
    have hraise := usableToken_raise (R := R) r t acc
    unfold commitmentStep at hc ⊢
    cases hu : usableToken R r (.info t) with
    | some p =>
      have hp := acc_of_usableToken hu
      rw [hraise, hu] at hc
      obtain rfl := Option.some.inj hc
      refine ⟨_, rfl, ?_⟩
      show msUp p.1 + p.2 * 1000 ≤ msUp p.1 + acc * 1000
      linarith
    | none =>
      rw [hraise, hu] at hc
      exact ⟨c', hc, le_rfl⟩

/-- A raised accuracy and an added token only put the check earlier. -/
theorem recordTime_mono {r : Json} {rt rt' : TstResult} (h : Raised rt rt' ∨ Added R r rt rt')
    {t : Rat} (ht : recordTime R r rt = some t) : ∃ t', recordTime R r rt' = some t' ∧ t' ≤ t := by
  rcases h with h | h
  · cases h with
    | same => exact ⟨t, ht, le_rfl⟩
    | @accuracy u acc hacc =>
      unfold recordTime at ht ⊢
      dsimp only at ht
      split at ht
      next hcov =>
        obtain ⟨g, hg, rfl⟩ := Option.map_eq_some_iff.mp ht
        refine ⟨g - acc, ?_, by linarith⟩
        show (if coversRecord R r u then (genTime R u.gen).map (· - acc) else none) = _
        rw [if_pos hcov, hg, Option.map_some]
      next => cases ht
  · -- what covers no record gives no time
    unfold recordTime at ht
    split at ht
    next u =>
      rw [h.1 u rfl, if_neg (by decide)] at ht
      cases ht
    next => cases ht

theorem referenceMs_mono {r : Json} {rt rt' : TstResult} {stamp stamp' : ReceiptTimestamp}
    (hstamp : receiptTimestampOf R r rt = .ok stamp)
    (hstamp' : receiptTimestampOf R r rt' = .ok stamp') (h : Raised rt rt' ∨ Added R r rt rt')
    {m' : Rat} (hm : referenceMs R r rt' stamp' = some m') :
    ∃ m, referenceMs R r rt stamp = some m ∧ m' ≤ m := by
  rw [referenceMs_eq hstamp'] at hm
  rw [referenceMs_eq hstamp]
  obtain ⟨issued, hissued, rfl⟩ := Option.map_eq_some_iff.mp hm
  rw [hissued]
  refine ⟨_, rfl, ?_⟩
  cases ht : recordTime R r rt with
  | none =>
    cases recordTime R r rt' with
    | none => exact le_rfl
    | some t' => exact min_le_left _ _
  | some t =>
    obtain ⟨t', ht', hle⟩ := recordTime_mono h ht
    rw [ht']
    exact min_le_min_left _ (msDown_mono hle)

/-! ## The answer -/

/-- The answer `yes` is about the exact instants, and neither a larger accuracy nor an
added record token turns `no` into it. -/
theorem committedBefore_exact (R : Runtime) (H : Host) :
    (∀ (inputs : Json) (rep : Report) (ct rt : TstResult),
      check R H inputs = .ok (.report rep) →
      tst (inputs.find (lit "criteria_tsr_base64")) = .ok ct →
      tst (inputs.find (lit "receipt_tsr_base64")) = .ok rt → rep.committedBefore = true →
        ∃ c t, latestCommitment R (receiptOf inputs) ct = some c ∧
          earliestCheck R (receiptOf inputs) rt = some t ∧ c < t) ∧
    ∀ (inputs inputs' : Json) (rep rep' : Report) (ct rt ct' rt' : TstResult),
      check R H inputs = .ok (.report rep) → check R H inputs' = .ok (.report rep') →
      receiptOf inputs' = receiptOf inputs →
      tst (inputs.find (lit "criteria_tsr_base64")) = .ok ct →
      tst (inputs.find (lit "receipt_tsr_base64")) = .ok rt →
      tst (inputs'.find (lit "criteria_tsr_base64")) = .ok ct' →
      tst (inputs'.find (lit "receipt_tsr_base64")) = .ok rt' →
      Raised ct ct' → Raised rt rt' ∨ Added R (receiptOf inputs) rt rt' →
        rep.committedBefore = false → rep'.committedBefore = false := by
  constructor
  · intro inputs rep ct rt h hct hrt hyes
    obtain ⟨-, sig, rt', stamp, ct', ind, hrep⟩ := check_report h
    obtain rfl := Except.ok.inj (hct.symm.trans hrep.criteriaToken)
    obtain rfl := Except.ok.inj (hrt.symm.trans hrep.recordToken)
    rw [hrep.committedBefore] at hyes
    obtain ⟨c, m, hc, hm, hlt⟩ := orderStep_true hyes
    obtain ⟨x, hx, hxc⟩ := commitmentStep_sound hc
    obtain ⟨y, hy, hmy⟩ := referenceMs_sound hrep.timestamp hm
    exact ⟨x, y, hx, hy, by linarith⟩
  · intro inputs inputs' rep rep' ct rt ct' rt' h h' hsame hct hrt hct' hrt' hraised hrecord hno
    obtain ⟨-, sig, rt₁, stamp, ct₁, ind, hrep⟩ := check_report h
    obtain ⟨-, sig', rt₂, stamp', ct₂, ind', hrep'⟩ := check_report h'
    obtain rfl := Except.ok.inj (hct.symm.trans hrep.criteriaToken)
    obtain rfl := Except.ok.inj (hrt.symm.trans hrep.recordToken)
    obtain rfl := Except.ok.inj (hct'.symm.trans hrep'.criteriaToken)
    obtain rfl := Except.ok.inj (hrt'.symm.trans hrep'.recordToken)
    have htime' := hrep'.timestamp
    have hbefore' := hrep'.committedBefore
    rw [hsame] at htime' hbefore'
    by_contra hyes
    rw [Bool.not_eq_false, hbefore'] at hyes
    obtain ⟨c', m', hc', hm', hlt⟩ := orderStep_true hyes
    obtain ⟨c, hc, hcle⟩ := commitmentStep_mono hraised hc'
    obtain ⟨m, hm, hmle⟩ := referenceMs_mono hrep.timestamp htime' hrecord hm'
    have hbefore := hrep.committedBefore
    rw [hno, hc, hm, orderStep_of_lt (by linarith)] at hbefore
    exact absurd hbefore (by decide)

/-! ## A token with an accuracy -/

/-- A token of one minute before the check, over the criteria document of the sample. -/
def sampleCommitment (seconds : UInt8) : Bytes :=
  sampleEncap (der 0x30 [der 0x02 [[1]], der 0x06 [[0x2A]],
    der 0x30 [der 0x30 [der 0x06 [[0x60, 0x86, 0x48, 0x01, 0x65, 0x03, 0x04, 0x02, 0x01]]],
      der 0x04 [Ed25519Ref.constantRuntime.sha256 sampleCriteria]],
    der 0x02 [[1]], der 0x18 [utf8Bytes (lit "20260301235900Z")],
    der 0x30 [der 0x02 [[seconds]]]])

/-- The sample record, its criteria committed to with an accuracy in seconds. -/
def committedInputs (seconds : UInt8) : Json :=
  match sampleInputs [sampleResult true "pass"] with
  | .obj kvs => .obj (kvs ++
      [(lit "criteria_tsr_base64", .str (b64encode (sampleCommitment seconds)))])
  | j => j

/-- What is read from its token. -/
def sampleCommitmentTst (seconds : Rat) : Tst :=
  ⟨oidSha256, Ed25519Ref.constantRuntime.sha256Hex sampleCriteria, lit "20260301235900Z", seconds⟩

/-- `criteria_committed_before_check` of a report. -/
def answer : Except PyError Outcome → Option Bool
  | .ok (.report rep) => some rep.committedBefore
  | _ => none

theorem report_of_answer {o : Except PyError Outcome} {b : Bool} (h : answer o = some b) :
    ∃ rep, o = .ok (.report rep) ∧ rep.committedBefore = b := by
  unfold answer at h
  split at h
  next rep => exact ⟨rep, rfl, Option.some.inj h⟩
  next => cases h

/-- With ten seconds the answer is `yes` and holds; from one minute on it stays `no`. -/
theorem committedInputs_answers :
    (∃ c t, latestCommitment Ed25519Ref.constantRuntime (receiptOf (committedInputs 10))
        (.info (sampleCommitmentTst 10)) = some c ∧
      earliestCheck Ed25519Ref.constantRuntime (receiptOf (committedInputs 10)) .none = some t ∧
      c < t) ∧
    ∃ rep, check Ed25519Ref.constantRuntime asciiHost (committedInputs 70) = .ok (.report rep) ∧
      rep.committedBefore = false := by
  have hyes : answer (check Ed25519Ref.constantRuntime asciiHost (committedInputs 10)) =
      some true := by decide +kernel
  have hno : answer (check Ed25519Ref.constantRuntime asciiHost (committedInputs 60)) =
      some false := by decide +kernel
  have hrun : (answer (check Ed25519Ref.constantRuntime asciiHost (committedInputs 70))).isSome =
      true := by decide +kernel
  obtain ⟨rep, hrep, hb⟩ := report_of_answer hyes
  obtain ⟨rep₁, hrep₁, hb₁⟩ := report_of_answer hno
  obtain ⟨b, hb'⟩ := Option.isSome_iff_exists.mp hrun
  obtain ⟨rep₂, hrep₂, -⟩ := report_of_answer hb'
  obtain ⟨hsound, hmono⟩ := committedBefore_exact Ed25519Ref.constantRuntime asciiHost
  refine ⟨hsound _ rep _ _ hrep (by decide +kernel) (by decide +kernel) hb, rep₂, hrep₂, ?_⟩
  refine hmono (committedInputs 60) _ rep₁ rep₂ (.info (sampleCommitmentTst 60)) .none
    (.info (sampleCommitmentTst 70)) .none hrep₁ hrep₂ (by decide +kernel) (by decide +kernel)
    (by decide +kernel) (by decide +kernel) (by decide +kernel) (.accuracy ?_)
    (.inl (.same _)) hb₁
  show (60 : Rat) ≤ 70
  decide

end Preaction.WarCheck
