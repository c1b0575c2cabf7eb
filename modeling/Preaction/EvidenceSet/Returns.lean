import Preaction.EvidenceSet.Consistent

/-!
# Where `validate` raises

`validate` is meant to end every malformed member in a named condition. Two texts are
encoded without a look at their characters, and a lone surrogate in one of them raises
`UnicodeEncodeError`: the set-level `retrieved_at`, beside well-formed times of the
entries, and the URL of a pinned entry, in a set that is otherwise consistent. On every
other value `validate` answers (`validate_answers_iff`).
-/

namespace Preaction.EvidenceSet

open Preaction.Py Preaction.Loop Json

variable (R : Runtime)

/-- `validate` answers, and of a set of the supported version names every condition of
every entry. -/
def Answers (es : Json) : Prop :=
  ∃ v, validate R es = .ok v ∧ (es.find (lit "evidence_set_version") = .str version →
    ∀ e ∈ sourcesOf es, ∀ c ∈ (checkEntry R e).1, c ∈ v.conditions)

/-- A text with a lone surrogate is encoded: the set-level time or the URL of a pinned
entry. -/
def EncodesSurrogate (es : Json) : Prop :=
  es.find (lit "evidence_set_version") = .str version ∧ sourcesOf es ≠ [] ∧
  ((∀ e ∈ sourcesOf es, validTs R (e.find (lit "retrieved_at")) = true) ∧ SetTimeSurrogate es ∨
    Consistent R es (sourcesOf es) ∧ UrlSurrogate (sourcesOf es))

variable {R}

theorem validate_supported {es : Json} (hv : es.find (lit "evidence_set_version") = .str version)
    (hne : sourcesOf es ≠ []) : validate R es = validateSources R es (sourcesOf es) := by
  cases es with
  | obj kvs =>
    have hlookup := lookup_of_find hv Json.noConfusion
    unfold sourcesOf at hne ⊢
    cases hsrc : find (.obj kvs) (lit "sources") with
    | arr sources =>
      rw [hsrc] at hne
      dsimp only at hne ⊢
      unfold validate
      dsimp only
      rw [hlookup]
      dsimp only
      rw [if_neg (not_not.mpr rfl), lookup_of_find hsrc Json.noConfusion]
      cases sources with
      | nil => exact absurd rfl hne
      | cons e es => rfl
    | _ =>
      rw [hsrc] at hne
      exact absurd rfl hne
  | _ => exact absurd rfl hne

/-- Without sources of a supported version `validate` answers at once. -/
theorem validate_other {es : Json} (h : ¬ (es.find (lit "evidence_set_version") = .str version ∧
    sourcesOf es ≠ [])) : Returns (validate R es) := by
  unfold validate
  split
  next kvs =>
    split
    next v hlookup =>
      split
      · exact ⟨_, rfl⟩
      · next hversion =>
        split
        · exact ⟨_, rfl⟩
        · exact ⟨_, rfl⟩
        · next sources hne hsrc =>
          refine absurd ⟨?_, ?_⟩ h
          · rw [find, hlookup, not_not.mp hversion]
            rfl
          · rw [sourcesOf, find, hsrc]
            exact hne
        · exact ⟨_, rfl⟩
    next => exact ⟨_, rfl⟩
  next => exact ⟨_, rfl⟩

theorem returns_checkRoot {es : Json} {sources : List Json} {p : Option Nat} :
    Returns (checkRoot R es sources p) ↔ Returns (evidenceRoot R sources) := by
  unfold checkRoot
  rw [returns_bind]
  constructor
  · rintro ⟨want, hwant, -⟩
    exact ⟨want, hwant⟩
  · rintro ⟨want, hwant⟩
    refine ⟨want, hwant, ?_⟩
    dsimp only
    split <;> exact ⟨_, rfl⟩

/-- `validate` answers exactly where it encodes no lone surrogate, and then names the
condition of every malformed member of an entry. -/
theorem validate_answers_iff (hsurr : ∀ c, isSurrogate c = true → R.digitVal c = none)
    (es : Json) : Answers R es ↔ ¬ EncodesSurrogate R es := by
  unfold Answers EncodesSurrogate
  by_cases hlists : es.find (lit "evidence_set_version") = .str version ∧ sourcesOf es ≠ []
  · obtain ⟨hv, hne⟩ := hlists
    rw [validate_supported hv hne]
    generalize sourcesOf es = sources at hne ⊢
    simp only [hv, hne, ne_eq, not_false_eq_true, true_and, forall_const, not_or]
    rw [← returns_setConds hsurr]
    constructor
    · rintro ⟨v, h, -⟩
      rw [validateSources_eq] at h
      obtain ⟨sc, hsc, -⟩ := bind_ok.mp h
      refine ⟨⟨sc, hsc⟩, fun ⟨hcons, hurl⟩ => ?_⟩
      obtain ⟨hnot, -⟩ | ⟨-, heq⟩ := validateSources_of_setConds hsurr hsc
      · exact hnot hcons
      · rw [← validateSources_eq, heq] at h
        exact (returns_evidenceRoot hsurr hcons.entries).mp (returns_checkRoot.mp ⟨v, h⟩) hurl
    · rintro ⟨⟨sc, hsc⟩, hurl⟩
      obtain ⟨-, -, heq⟩ | ⟨hcons, heq⟩ := validateSources_of_setConds hsurr hsc
      · refine ⟨_, heq, fun e he c hc => ?_⟩
        exact List.mem_append_left _ (List.mem_append_left _ (List.mem_flatMap_of_mem he hc))
      · obtain ⟨v, h⟩ := returns_checkRoot.mpr
          ((returns_evidenceRoot hsurr hcons.entries).mpr fun h => hurl ⟨hcons, h⟩)
        refine ⟨v, heq.trans h, fun e he c hc => ?_⟩
        rw [hcons.entries e he] at hc
        cases hc
  · obtain ⟨v, h⟩ := validate_other (R := R) hlists
    refine iff_of_true ⟨v, h, fun hv e he => ?_⟩ fun henc => hlists ⟨henc.1, henc.2.1⟩
    exact absurd ⟨hv, List.ne_nil_of_mem he⟩ hlists

theorem sample_surrogate (c : CodePoint) (h : isSurrogate c = true) :
    Runtime.sample.digitVal c = none := by
  simp only [isSurrogate, Bool.and_eq_true, decide_eq_true_eq] at h
  refine if_neg fun hdigit => ?_
  have := val_of_isDigit hdigit
  omega

/-- A set without a time of its own, and a URL in ASCII. -/
theorem sampleSet_answers : Answers .sample (sampleSet [sampleA, sampleUnpinned]) := by
  refine (validate_answers_iff sample_surrogate _).mpr ?_
  rintro ⟨-, -, ⟨-, s, hs, -⟩ | ⟨-, e, he, hp, u, hu, hsurr⟩⟩
  · cases hs
  · obtain rfl | rfl := List.mem_pair.mp he
    · obtain rfl : lit "https://a.example/x" = u := Json.str.inj hu
      exact absurd hsurr (by decide)
    · cases hp

/-- The set-level time is a lone surrogate. -/
def surrogateTime : Json := object
  [("evidence_set_version", .str version), ("sources", .arr [sampleA]),
    ("retrieved_at", .str [0xD800])]

/-- A pinned entry whose URL is a lone surrogate. -/
def surrogateUrl : Json := object
  [("evidence_set_version", .str version), ("sources", .arr [object
      [("url", .str [0xD800]), ("snippet_sha256", .str (List.replicate 64 (ofChar 'a'))),
        ("retrieved_at", text "2026-09-24T12:00:00.000Z"), ("pinned", .bool true),
        ("content_kind", text "snippet")]]),
    ("evidence_root", text "")]

/-- Both raise `UnicodeEncodeError`. -/
theorem surrogate_raises : ¬ Answers .sample surrogateTime ∧ ¬ Answers .sample surrogateUrl ∧
    validate .sample surrogateTime = .error .unicodeEncodeError ∧
    validate .sample surrogateUrl = .error .unicodeEncodeError := by
  have htime : validate .sample surrogateTime = .error .unicodeEncodeError := by decide +kernel
  have hurl : validate .sample surrogateUrl = .error .unicodeEncodeError := by decide +kernel
  refine ⟨?_, ?_, htime, hurl⟩
  · rintro ⟨v, hv, -⟩
    cases htime.symm.trans hv
  · rintro ⟨v, hv, -⟩
    cases hurl.symm.trans hv

end Preaction.EvidenceSet
