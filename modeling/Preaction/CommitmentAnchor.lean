import Preaction.Bip340
import Preaction.VendoredJcs

/-!
# `commitment-anchor-obs06/check.py` — the digest under `nip01-event-id`

The checker writes an event by hand, with the seven escapes of NIP-01 and every
other character as itself. `nostr_event_id` writes it with `json.dumps`, which
escapes each control character. So the two hash the same bytes exactly when no text
of the event has a control character outside the seven (`eventId_eq_digestOf_iff`):
a text never gets longer by the hand-written escapes, and such a character makes it
shorter (`length_nip01Str_le`).

Mirroring notes:
- `int` and `str` of an integer share the limit of `sys.get_int_max_str_digits()`;
  `nostrEventIdLimited` is `nostr_event_id` with it.
- What is raised in the `try` is a `KeyError`, a `ValueError` or, for an event that is
  not an object, a `TypeError`; the last is not caught.
-/

namespace Preaction.CommitmentAnchor

open Preaction.Py Preaction.Bip340 Preaction.VendoredJcs

/-- `NIP01_ESCAPES.get(c, c)` -/
def nip01Escape (c : CodePoint) : Str :=
  if c.val = 0x0A then lit "\\n"
  else if c.val = 0x22 then lit "\\\""
  else if c.val = 0x5C then lit "\\\\"
  else if c.val = 0x0D then lit "\\r"
  else if c.val = 0x09 then lit "\\t"
  else if c.val = 0x08 then lit "\\b"
  else if c.val = 0x0C then lit "\\f"
  else [c]

/-- `nip01_str(s)` -/
def nip01Str (s : Str) : Str := ofChar '"' :: (s.flatMap nip01Escape ++ [ofChar '"'])

variable (R : Runtime)

mutual
/-- `nip01_json(x)` -/
def nip01Json : Json → Except PyError Str
  | .str s => .ok (nip01Str s)
  | .int n => strOfInt R n
  | .arr xs => do return ofChar '[' :: ([ofChar ','].intercalate (← nip01Elems xs) ++ [ofChar ']'])
  | _ => .error .valueError

/-- The texts that `nip01_json` joins. -/
def nip01Elems : List Json → Except PyError (List Str)
  | [] => .ok []
  | x :: xs => do return (← nip01Json x) :: (← nip01Elems xs)
end

/-- `ser` of an event. -/
def nip01Serial (event : Json) : Except PyError Str := do
  nip01Json R (.arr [.int 0, ← event.item (lit "pubkey"), ← event.item (lit "created_at"),
    ← event.item (lit "kind"), ← event.item (lit "tags"), ← event.item (lit "content")])

/-- The digest of the subject, none where the `try` catches. -/
def digestOfSubject (event : Json) : Except PyError (Option Str) :=
  match nip01Serial R event with
  | .ok ser => (utf8 ser).map fun b => some (R.sha256Hex b)
  | .error .keyError => .ok none
  | .error .valueError => .ok none
  | .error e => .error e

/-- `digest_of(record)` -/
def digestOf (record : Json) : Except PyError (Option Str) := do
  match ← record.get (lit "commitment_anchor") with
  | .obj anchor =>
    if anchor.lookup (lit "digest_rule") ≠ some (text "nip01-event-id") then return none
    digestOfSubject R (← record.item (lit "subject"))
  | _ => return none

/-- `nostr_event_id(event)`, which raises `ValueError` where an integer is too long to
print. -/
def nostrEventIdLimited (event : Json) : Except PyError Str := do
  let id ← nostrEventId R event
  let createdAt ← (← event.item (lit "created_at")) |> R.int
  let kind ← (← event.item (lit "kind")) |> R.int
  if TooLong R createdAt ∨ TooLong R kind then throw .valueError
  return id

/-! ## Events -/

/-- The signed members of an event. -/
structure Event where
  pubkey : Str
  createdAt : Int
  kind : Int
  tags : List (List Str)
  content : Str

namespace Event

def tagsJson (e : Event) : Json := .arr (e.tags.map fun t => .arr (t.map .str))

/-- The texts that are signed. -/
def texts (e : Event) : List Str := e.pubkey :: e.content :: e.tags.flatten

/-- What both serializations list. -/
def signed (e : Event) : Json :=
  .arr [.int 0, .str e.pubkey, .int e.createdAt, .int e.kind, e.tagsJson, .str e.content]

/-- The bytes that are hashed: of `json.dumps`, and of `nip01_json`. -/
def hashed (e : Event) : List Bytes :=
  [utf8Bytes (printWith (quote false) R.dumpsFormat e.signed),
    utf8Bytes (printWith nip01Str R.dumpsFormat e.signed)]

/-- The members of the object are those of the event. -/
structure Of (e : Event) (event : Json) : Prop where
  pubkey : event.item (lit "pubkey") = .ok (.str e.pubkey)
  createdAt : event.item (lit "created_at") = .ok (.int e.createdAt)
  kind : event.item (lit "kind") = .ok (.int e.kind)
  tags : event.item (lit "tags") = .ok e.tagsJson
  content : event.item (lit "content") = .ok (.str e.content)

end Event

/-- A record that anchors the event under the rule. -/
structure Anchors (record event : Json) : Prop where
  rule : ∃ anchor, record.get (lit "commitment_anchor") = .ok (.obj anchor) ∧
    anchor.lookup (lit "digest_rule") = some (text "nip01-event-id")
  subject : record.item (lit "subject") = .ok event

/-- A control character that NIP-01 writes as itself. -/
def Control (c : CodePoint) : Prop :=
  c.val < 0x20 ∧ c.val ≠ 0x08 ∧ c.val ≠ 0x09 ∧ c.val ≠ 0x0A ∧ c.val ≠ 0x0C ∧ c.val ≠ 0x0D

instance (c : CodePoint) : Decidable (Control c) := inferInstanceAs (Decidable (_ ∧ _))

/-! ## The two ways to write a text -/

theorem nip01Escape_eq {c : CodePoint} (h : ¬ Control c) : nip01Escape c = escapeChar false c := by
  unfold Control at h
  unfold nip01Escape escapeChar
  split
  next => rw [if_neg (by omega), if_neg (by omega)]
  split; · rfl
  split; · rfl
  split; · rfl
  split; · rfl
  split
  next => rw [if_neg (by omega)]
  split; · rfl
  have hlarge : ¬ c.val < 0x20 := by omega
  rw [if_neg (by simpa using hlarge)]

/-- A control character is written in one character, and not in six. -/
theorem nip01Escape_control {c : CodePoint} (h : Control c) :
    (nip01Escape c).length = 1 ∧ (escapeChar false c).length = 6 := by
  unfold Control at h
  unfold nip01Escape escapeChar
  rw [if_neg (by omega), if_neg (by omega), if_neg (by omega), if_neg (by omega),
    if_neg (by omega), if_neg (by omega), if_neg (by omega), if_neg (by omega),
    if_neg (by omega), if_neg (by omega), if_neg (by omega), if_neg (by omega),
    if_neg (by omega), if_neg (by omega), if_pos (by simpa using h.1)]
  exact ⟨rfl, rfl⟩

theorem nip01Escape_eq_iff {c : CodePoint} : nip01Escape c = escapeChar false c ↔ ¬ Control c := by
  refine ⟨fun heq h => ?_, nip01Escape_eq⟩
  obtain ⟨hone, hsix⟩ := nip01Escape_control h
  rw [heq, hsix] at hone
  cases hone

theorem length_nip01Escape_le (c : CodePoint) :
    (nip01Escape c).length ≤ (escapeChar false c).length := by
  by_cases h : Control c
  · obtain ⟨hone, hsix⟩ := nip01Escape_control h
    omega
  · rw [nip01Escape_eq h]

/-- Two texts of two parts each, no part of the first longer than that of the second. -/
theorem append_inj_of_le {s t u v : Str} (hs : s.length ≤ u.length) (ht : t.length ≤ v.length) :
    s ++ t = u ++ v ↔ s = u ∧ t = v := by
  refine ⟨fun h => ?_, fun h => by rw [h.1, h.2]⟩
  have hlen := congrArg List.length h
  rw [List.length_append, List.length_append] at hlen
  exact List.append_inj h (by omega)

theorem flatMap_of_le {α : Type} {f g : α → Str} {l : List α}
    (hle : ∀ a ∈ l, (f a).length ≤ (g a).length) :
    (l.flatMap f).length ≤ (l.flatMap g).length ∧
      (l.flatMap f = l.flatMap g ↔ ∀ a ∈ l, f a = g a) := by
  induction l with
  | nil => simp
  | cons a l ih =>
    obtain ⟨ha, hl⟩ := List.forall_mem_cons.mp hle
    obtain ⟨hlen, hiff⟩ := ih hl
    rw [List.flatMap_cons, List.flatMap_cons, List.forall_mem_cons, append_inj_of_le ha hlen, hiff,
      List.length_append, List.length_append]
    exact ⟨Nat.add_le_add ha hlen, Iff.rfl⟩

/-- The hand-written escapes never make a text longer, and leave it as long only where
they are those of `json.dumps`. -/
theorem length_nip01Str_le (s : Str) : (nip01Str s).length ≤ (quote false s).length ∧
    (nip01Str s = quote false s ↔ ∀ c ∈ s, ¬ Control c) := by
  obtain ⟨hlen, hiff⟩ := flatMap_of_le (l := s) fun c _ => length_nip01Escape_le c
  unfold nip01Str quote escape
  rw [List.length_cons, List.length_cons, List.length_append, List.length_append, List.cons.injEq,
    append_inj_of_le hlen le_rfl, hiff]
  simp only [nip01Escape_eq_iff, true_and, and_true]
  omega

theorem scalar_nip01Str {s : Str} (h : Scalar s) : Scalar (nip01Str s) := by
  refine scalar_cons.mpr ⟨by decide, scalar_append.mpr ⟨?_, by decide⟩⟩
  rw [Scalar, List.any_flatMap, List.any_eq_false]
  intro c hc
  have hsurr : isSurrogate c = false := Bool.eq_false_iff.mpr (List.any_eq_false.mp h c hc)
  rw [Bool.not_eq_true]
  change Scalar (nip01Escape c)
  unfold nip01Escape
  split; · decide
  split; · decide
  split; · decide
  split; · decide
  split; · decide
  split; · decide
  split; · decide
  exact scalar_cons.mpr ⟨hsurr, rfl⟩

/-! ## Lists -/

variable {R} {fmt : Format} {q q' : Str → Str}

/-- The elements behind the first, each behind a comma. -/
theorem printElemsWith_eq (xs : List Json) : printElemsWith q fmt xs =
    (xs.flatMap fun x => ofChar ',' :: printWith q fmt x) ++ [ofChar ']'] := by
  induction xs with
  | nil => rfl
  | cons x xs ih =>
    rw [printElemsWith, ih, List.flatMap_cons, List.cons_append, List.cons_append,
      List.append_assoc]

theorem intercalate_cons (x : Str) (l : List Str) :
    [ofChar ','].intercalate (x :: l) = x ++ l.flatMap (ofChar ',' :: ·) := by
  induction l generalizing x with
  | nil => simp [List.intercalate]
  | cons y l ih => rw [List.intercalate_cons_cons, ih, List.flatMap_cons]; simp

/-- The text of a list, joined with commas. -/
theorem printWith_arr (xs : List Json) : printWith q fmt (.arr xs) =
    ofChar '[' :: ([ofChar ','].intercalate (xs.map (printWith q fmt)) ++ [ofChar ']']) := by
  cases xs with
  | nil => rfl
  | cons x xs =>
    rw [printWith, printElemsWith_eq, List.map_cons, intercalate_cons, List.flatMap_map,
      List.append_assoc]

/-- Two ways to quote, of which the first is never longer, write a list alike where they
write each element alike. -/
theorem printWith_arr_of_le (q q' : Str → Str) (fmt : Format) {xs : List Json}
    (hle : ∀ x ∈ xs, (printWith q fmt x).length ≤ (printWith q' fmt x).length) :
    (printWith q fmt (.arr xs)).length ≤ (printWith q' fmt (.arr xs)).length ∧
      (printWith q fmt (.arr xs) = printWith q' fmt (.arr xs) ↔
        ∀ x ∈ xs, printWith q fmt x = printWith q' fmt x) := by
  cases xs with
  | nil => exact ⟨le_rfl, by simp [printWith]⟩
  | cons x xs =>
    obtain ⟨hx, hxs⟩ := List.forall_mem_cons.mp hle
    obtain ⟨hlen, hiff⟩ := flatMap_of_le (f := fun x => ofChar ',' :: printWith q fmt x)
      (g := fun x => ofChar ',' :: printWith q' fmt x) fun y hy => Nat.succ_le_succ (hxs y hy)
    rw [printWith, printWith, printElemsWith_eq, printElemsWith_eq, List.forall_mem_cons,
      List.cons.injEq, append_inj_of_le hx (by simpa using hlen), append_inj_of_le hlen le_rfl, hiff]
    simp only [List.cons.injEq, true_and, and_true, List.length_cons, List.length_append]
    omega

theorem scalar_arr {xs : List Json} (h : ∀ x ∈ xs, Scalar (printWith q fmt x)) :
    Scalar (printWith q fmt (.arr xs)) := by
  cases xs with
  | nil => exact rfl
  | cons x xs =>
    obtain ⟨hx, hxs⟩ := List.forall_mem_cons.mp h
    rw [printWith, printElemsWith_eq]
    refine scalar_cons.mpr ⟨by decide, scalar_append.mpr ⟨hx, scalar_append.mpr ⟨?_, by decide⟩⟩⟩
    rw [Scalar, List.any_flatMap, List.any_eq_false]
    intro y hy
    rw [Bool.not_eq_true]
    exact scalar_cons.mpr ⟨by decide, hxs y hy⟩

/-! ## The two serializations of an event -/

variable {e : Event}

/-- A way to quote that keeps the texts of the event scalar. -/
theorem scalar_signed (h : ∀ s ∈ e.texts, Scalar (q s)) : Scalar (printWith q fmt e.signed) := by
  obtain ⟨hpubkey, hrest⟩ := List.forall_mem_cons.mp h
  obtain ⟨hcontent, htags⟩ := List.forall_mem_cons.mp hrest
  have hlists : Scalar (printWith q fmt e.tagsJson) := by
    refine scalar_arr fun x hx => ?_
    obtain ⟨t, ht, rfl⟩ := List.mem_map.mp hx
    refine scalar_arr fun y hy => ?_
    obtain ⟨s, hs, rfl⟩ := List.mem_map.mp hy
    exact htags s (List.mem_flatten.mpr ⟨t, ht, hs⟩)
  refine scalar_arr ?_
  simp only [List.forall_mem_cons]
  exact ⟨scalar_intStr _, hpubkey, scalar_intStr _, scalar_intStr _, hlists, hcontent,
    List.forall_mem_nil _⟩

/-- The two serializations are one text exactly when no text of the event has a control
character that only one of them escapes. -/
theorem signed_eq_iff : printWith nip01Str fmt e.signed = printWith (quote false) fmt e.signed ↔
    ∀ s ∈ e.texts, ∀ c ∈ s, ¬ Control c := by
  have hstr (s : Str) : (printWith nip01Str fmt (.str s)).length ≤
      (printWith (quote false) fmt (.str s)).length ∧
      (printWith nip01Str fmt (.str s) = printWith (quote false) fmt (.str s) ↔
        ∀ c ∈ s, ¬ Control c) := length_nip01Str_le s
  have htag (t : List Str) := printWith_arr_of_le nip01Str (quote false) fmt
    (List.forall_mem_map.mpr fun s (_ : s ∈ t) => (hstr s).1)
  have htags := printWith_arr_of_le nip01Str (quote false) fmt
    (List.forall_mem_map.mpr fun t (_ : t ∈ e.tags) => (htag t).1)
  have hle : ∀ x ∈ [.int 0, .str e.pubkey, .int e.createdAt, .int e.kind, e.tagsJson,
      .str e.content], (printWith nip01Str fmt x).length ≤ (printWith (quote false) fmt x).length := by
    simp only [List.forall_mem_cons]
    exact ⟨le_rfl, (hstr _).1, le_rfl, le_rfl, htags.1, (hstr _).1, List.forall_mem_nil _⟩
  rw [Event.signed, (printWith_arr_of_le _ _ _ hle).2]
  simp only [List.forall_mem_cons, (hstr _).2, Event.tagsJson, htags.2, List.forall_mem_map,
    (htag _).2, Event.texts, List.mem_flatten]
  constructor
  · rintro ⟨-, hpubkey, -, -, ht, hcontent, -⟩
    exact ⟨hpubkey, hcontent, fun s hs => by
      obtain ⟨t, htmem, hst⟩ := hs
      exact ht t htmem s hst⟩
  · rintro ⟨hpubkey, hcontent, ht⟩
    exact ⟨rfl, hpubkey, rfl, rfl, fun t htmem s hs => ht s ⟨t, htmem, hs⟩, hcontent,
      List.forall_mem_nil _⟩

theorem nip01Elems_eq {xs : List Json} (h : ∀ x ∈ xs, nip01Json R x = .ok (printWith nip01Str fmt x)) :
    nip01Elems R xs = .ok (xs.map (printWith nip01Str fmt)) := by
  induction xs with
  | nil => rfl
  | cons x xs ih =>
    obtain ⟨hx, hxs⟩ := List.forall_mem_cons.mp h
    rw [nip01Elems, hx, ih hxs]
    rfl

theorem nip01Json_arr {xs : List Json} (h : ∀ x ∈ xs, nip01Json R x = .ok (printWith nip01Str fmt x)) :
    nip01Json R (.arr xs) = .ok (printWith nip01Str fmt (.arr xs)) := by
  rw [nip01Json, nip01Elems_eq h, printWith_arr]
  rfl

theorem nip01Json_tagsJson : nip01Json R e.tagsJson = .ok (printWith nip01Str fmt e.tagsJson) := by
  refine nip01Json_arr fun x hx => ?_
  obtain ⟨t, -, rfl⟩ := List.mem_map.mp hx
  refine nip01Json_arr fun y hy => ?_
  obtain ⟨s, -, rfl⟩ := List.mem_map.mp hy
  rw [nip01Json]
  rfl

theorem nip01Json_int (fmt : Format) (n : Int) : nip01Json R (.int n) =
    if TooLong R n then .error .valueError else .ok (printWith nip01Str fmt (.int n)) := by
  rw [nip01Json]
  rfl

/-- `ser` of an event, where its integers can be printed. -/
theorem nip01Json_signed (fmt : Format) : nip01Json R e.signed =
    if TooLong R e.createdAt ∨ TooLong R e.kind then .error .valueError
    else .ok (printWith nip01Str fmt e.signed) := by
  have hzero : nip01Json R (.int 0) = .ok (printWith nip01Str fmt (.int 0)) := by
    rw [nip01Json_int fmt, if_neg]
    rintro ⟨hne, hlt⟩
    have hlen : (decimal (0 : Int).natAbs).length = 1 := rfl
    omega
  have hstr (s : Str) : nip01Json R (.str s) = .ok (printWith nip01Str fmt (.str s)) := by
    rw [nip01Json]
    rfl
  by_cases hcreated : TooLong R e.createdAt
  · rw [if_pos (Or.inl hcreated), Event.signed, nip01Json, nip01Elems, hzero, nip01Elems, hstr,
      nip01Elems, nip01Json_int fmt, if_pos hcreated]
    rfl
  have hcreatedAt := (nip01Json_int fmt e.createdAt).trans (if_neg hcreated)
  by_cases hkind : TooLong R e.kind
  · rw [if_pos (Or.inr hkind), Event.signed, nip01Json, nip01Elems, hzero, nip01Elems, hstr,
      nip01Elems, hcreatedAt, nip01Elems, nip01Json_int fmt, if_pos hkind]
    rfl
  have hkindOk := (nip01Json_int fmt e.kind).trans (if_neg hkind)
  rw [if_neg (not_or.mpr ⟨hcreated, hkind⟩), Event.signed]
  refine nip01Json_arr ?_
  simp only [List.forall_mem_cons]
  exact ⟨hzero, hstr _, hcreatedAt, hkindOk, nip01Json_tagsJson, hstr _, List.forall_mem_nil _⟩

/-! ## The two digests -/

theorem getD_of_item {d v x : Json} {k : Str} (h : d.item k = .ok v) : d.getD k x = .ok v := by
  unfold Json.item at h
  split at h
  next kvs =>
    split at h
    next w hw =>
      obtain rfl := Except.ok.inj h
      rw [Json.getD, Json.get?, hw]
      rfl
    next => cases h
  next => cases h

theorem nip01Serial_eq {event : Json} (he : e.Of event) :
    nip01Serial R event = nip01Json R e.signed := by
  rw [nip01Serial, he.pubkey, he.createdAt, he.kind, he.tags, he.content]
  rfl

theorem digestOf_eq {record event : Json} (hrecord : Anchors record event) (he : e.Of event)
    (hscalar : ∀ s ∈ e.texts, Scalar s) : digestOf R record =
      if TooLong R e.createdAt ∨ TooLong R e.kind then .ok none
      else .ok (some (R.sha256Hex (utf8Bytes (printWith nip01Str R.dumpsFormat e.signed)))) := by
  obtain ⟨anchor, hanchor, hrule⟩ := hrecord.rule
  have htext : Scalar (printWith nip01Str R.dumpsFormat e.signed) :=
    scalar_signed fun s hs => scalar_nip01Str (hscalar s hs)
  have hsubject : digestOf R record = digestOfSubject R event := by
    rw [digestOf, hanchor]
    change (if _ then _ else _) = _
    rw [if_neg (not_not.mpr hrule), hrecord.subject]
    rfl
  rw [hsubject, digestOfSubject, nip01Serial_eq he, nip01Json_signed R.dumpsFormat]
  by_cases hlong : TooLong R e.createdAt ∨ TooLong R e.kind
  · rw [if_pos hlong, if_pos hlong]
  · rw [if_neg hlong, if_neg hlong]
    dsimp only
    rw [utf8_of_scalar htext]
    rfl

theorem nostrEventIdLimited_eq {event : Json} (he : e.Of event) (hlower : R.lower e.pubkey = e.pubkey)
    (hscalar : ∀ s ∈ e.texts, Scalar s) : nostrEventIdLimited R event =
      if TooLong R e.createdAt ∨ TooLong R e.kind then .error .valueError
      else .ok (R.sha256Hex (utf8Bytes (printWith (quote false) R.dumpsFormat e.signed))) := by
  have htext : Scalar (printWith (quote false) R.dumpsFormat e.signed) :=
    scalar_signed fun s hs => (quote_scalar (hscalar s hs) false).2
  have htags : e.tagsJson.orElse (.arr []) = e.tagsJson := by
    unfold Event.tagsJson Json.orElse Json.truthy
    cases e.tags <;> rfl
  have hgetD : event.getD (lit "tags") (.arr []) = .ok e.tagsJson := getD_of_item he.tags
  have hid : nostrEventId R event =
      .ok (R.sha256Hex (utf8Bytes (printWith (quote false) R.dumpsFormat e.signed))) := by
    rw [nostrEventId, he.pubkey, he.createdAt, he.kind, hgetD, he.content]
    change (utf8 (nostrSerial R e.pubkey e.createdAt e.kind (e.tagsJson.orElse (.arr [])) e.content)
      >>= fun b => .ok (R.sha256Hex b)) = _
    rw [nostrSerial, htags, hlower, print_eq_printWith]
    change (utf8 (printWith (quote false) R.dumpsFormat e.signed) >>= _) = _
    rw [utf8_of_scalar htext]
    rfl
  rw [nostrEventIdLimited, hid, he.createdAt, he.kind]
  rfl

/-- `nostr_event_id` is the digest that the checker recomputes exactly when no text of
the event has a control character outside the seven escapes and its integers can be
printed. -/
theorem eventId_eq_digestOf_iff {event record : Json} (he : e.Of event)
    (hrecord : Anchors record event) (hlower : R.lower e.pubkey = e.pubkey)
    (hscalar : ∀ s ∈ e.texts, Scalar s)
    (hsha : ∀ b ∈ e.hashed R, ∀ c ∈ e.hashed R, R.sha256 b = R.sha256 c → b = c) :
    (∃ d, nostrEventIdLimited R event = .ok d ∧ digestOf R record = .ok (some d)) ↔
      (∀ s ∈ e.texts, ∀ c ∈ s, ¬ Control c) ∧ ¬ TooLong R e.createdAt ∧ ¬ TooLong R e.kind := by
  rw [nostrEventIdLimited_eq he hlower hscalar, digestOf_eq hrecord he hscalar, ← not_or]
  by_cases hlong : TooLong R e.createdAt ∨ TooLong R e.kind
  · rw [if_pos hlong, if_pos hlong]
    simp [hlong]
  have hsigned : printWith nip01Str R.dumpsFormat e.signed =
      printWith (quote false) R.dumpsFormat e.signed ↔ ∀ s ∈ e.texts, ∀ c ∈ s, ¬ Control c :=
    signed_eq_iff
  rw [if_neg hlong, if_neg hlong, ← hsigned]
  simp only [hlong, not_false_eq_true, and_true]
  constructor
  · rintro ⟨d, hd, hd'⟩
    have hhex := (Option.some.inj (Except.ok.inj hd')).trans (Except.ok.inj hd).symm
    have hbytes := hsha _ (List.mem_cons_of_mem _ (List.mem_singleton_self _)) _
      (List.mem_cons_self ..) (hexStr_injective hhex)
    exact utf8Bytes_injective hbytes
  · intro heq
    exact ⟨_, rfl, by rw [heq]⟩

/-! ## Two events -/

def sampleEvent (content : Str) : Event :=
  ⟨lit "6786e18a", 1700000000, 30078, [[lit "d", lit "a\tb"], []], content⟩

def eventOf (e : Event) : Json := object [("pubkey", .str e.pubkey), ("created_at", .int e.createdAt),
  ("kind", .int e.kind), ("tags", e.tagsJson), ("content", .str e.content)]

def recordOf (event : Json) : Json := object [("subject", event),
  ("commitment_anchor", object [("digest_rule", text "nip01-event-id")])]

theorem of_eventOf (e : Event) : e.Of (eventOf e) := by
  unfold eventOf
  constructor
  · rw [item_object_cons]
  · rw [item_object_cons_ne (by decide), item_object_cons]
  · rw [item_object_cons_ne (by decide), item_object_cons_ne (by decide), item_object_cons]
  · rw [item_object_cons_ne (by decide), item_object_cons_ne (by decide),
      item_object_cons_ne (by decide), item_object_cons]
  · rw [item_object_cons_ne (by decide), item_object_cons_ne (by decide),
      item_object_cons_ne (by decide), item_object_cons_ne (by decide), item_object_cons]

theorem anchors_recordOf (event : Json) : Anchors (recordOf event) event := by
  have hanchor : (recordOf event).item (lit "commitment_anchor") =
      .ok (object [("digest_rule", text "nip01-event-id")]) := by
    rw [recordOf, item_object_cons_ne (by decide), item_object_cons]
  exact ⟨⟨_, getD_of_item hanchor, rfl⟩, item_object_cons ..⟩

/-- A tab and a quote are among the seven. -/
theorem sampleEvent_agrees : ∃ d,
    nostrEventIdLimited .transparent (eventOf (sampleEvent (lit "\"é\""))) = .ok d ∧
      digestOf .transparent (recordOf (eventOf (sampleEvent (lit "\"é\"")))) = .ok (some d) := by
  have hscalar : ∀ s ∈ (sampleEvent (lit "\"é\"")).texts, Scalar s := by decide +kernel
  have hall : ((sampleEvent (lit "\"é\"")).texts.all fun s => s.all (¬ Control ·)) = true := by
    decide +kernel
  have hplain : ∀ s ∈ (sampleEvent (lit "\"é\"")).texts, ∀ c ∈ s, ¬ Control c := fun s hs c hc =>
    of_decide_eq_true (List.all_eq_true.mp (List.all_eq_true.mp hall s hs) c hc)
  exact (eventId_eq_digestOf_iff (of_eventOf _) (anchors_recordOf _) (by decide) hscalar
    fun _ _ _ _ h => h).mpr ⟨hplain, by decide, by decide⟩

/-- The control character 1 is not. -/
theorem controlEvent_differs : ¬ ∃ d,
    nostrEventIdLimited .transparent (eventOf (sampleEvent [1])) = .ok d ∧
      digestOf .transparent (recordOf (eventOf (sampleEvent [1]))) = .ok (some d) := by
  rintro ⟨d, hd, hd'⟩
  have hne : (nostrEventIdLimited .transparent (eventOf (sampleEvent [1]))).map some ≠
      digestOf .transparent (recordOf (eventOf (sampleEvent [1]))) := by decide +kernel
  rw [hd, hd'] at hne
  exact hne rfl

end Preaction.CommitmentAnchor
