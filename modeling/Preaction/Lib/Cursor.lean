import Mathlib.Data.List.Nodup

/-!
# Following cursors

A `Feed` serves pages under tokens: each page has some records and, unless it is the
last, the token of the next. `Chain` is a chain of pages from a token to the last page;
a feed completes with the records along such a chain from its start.

A reader that keeps the tokens it has seen is in a state of `Visits`. What it can say
when it stops follows from the state alone: on a last page the feed completes with what
was read (`Visits.completes`); at a token it has seen, or one without a page, the feed
does not complete (`Visits.not_completes`); and either way it has come to every token
there is to come to (`Visits.mem_of_reached`).
-/

namespace Preaction.Cursor

variable {κ α : Type}

structure Feed (κ α : Type) where
  start : κ
  page : κ → Option (List α × Option κ)

variable (f : Feed κ α)

/-- A chain of pages: its tokens, and the records along it. -/
inductive Chain : κ → List κ → List α → Prop
  | last {t : κ} {records : List α} (h : f.page t = some (records, none)) : Chain t [t] records
  | next {t u : κ} {ts : List κ} {records rest : List α} (h : f.page t = some (records, some u))
      (hrest : Chain u ts rest) : Chain t (t :: ts) (records ++ rest)

/-- The chain from the start comes to a last page, and to no token twice. -/
def Completes (records : List α) : Prop := ∃ ts, Chain f f.start ts records ∧ ts.Nodup

/-- The cursors lead from the start to the token. -/
inductive Reached : κ → Prop
  | start : Reached f.start
  | next {t u : κ} {records : List α} (ht : Reached t) (h : f.page t = some (records, some u)) :
      Reached u

/-- The states of a reader: the tokens it has seen, the last first, the records it has
read, and the token it is at. -/
inductive Visits : List κ → List α → κ → Prop
  | start : Visits [] [] f.start
  | next {seen : List κ} {out : List α} {t u : κ} {records : List α} (hv : Visits seen out t)
      (hnew : t ∉ seen) (h : f.page t = some (records, some u)) :
      Visits (t :: seen) (out ++ records) u

variable {f}

/-- A feed has one chain from a token. -/
theorem Chain.unique {t : κ} {ts us : List κ} {records rest : List α} (h : Chain f t ts records)
    (h' : Chain f t us rest) : ts = us ∧ records = rest := by
  induction h generalizing us rest with
  | last h =>
    cases h' with
    | last h' => exact ⟨rfl, (Prod.mk.inj (Option.some.inj (h.symm.trans h'))).1⟩
    | next h' _ => cases (Prod.mk.inj (Option.some.inj (h.symm.trans h'))).2
  | next h _ ih =>
    cases h' with
    | last h' => cases (Prod.mk.inj (Option.some.inj (h.symm.trans h'))).2
    | next h' hrest =>
      obtain ⟨rfl, hu⟩ := Prod.mk.inj (Option.some.inj (h.symm.trans h'))
      obtain rfl := Option.some.inj hu
      obtain ⟨rfl, rfl⟩ := ih hrest
      exact ⟨rfl, rfl⟩

theorem Completes.unique {records rest : List α} (h : Completes f records)
    (h' : Completes f rest) : records = rest := by
  obtain ⟨ts, hchain, -⟩ := h
  obtain ⟨us, hchain', -⟩ := h'
  exact (hchain.unique hchain').2

/-- A chain from a token that is reached ends in a last page that is reached. -/
theorem Chain.exists_last {t : κ} {ts : List κ} {records : List α} (h : Chain f t ts records)
    (ht : Reached f t) : ∃ u last, Reached f u ∧ f.page u = some (last, none) := by
  induction h with
  | last h => exact ⟨_, _, ht, h⟩
  | next h _ ih => exact ih (ht.next h)

/-- The tokens of a chain have pages, and a page leads to one of them. -/
theorem Chain.closed {t : κ} {ts : List κ} {records : List α} (h : Chain f t ts records) :
    t ∈ ts ∧ ∀ u ∈ ts, ∃ r next, f.page u = some (r, next) ∧ ∀ v ∈ next, v ∈ ts := by
  induction h with
  | last h =>
    refine ⟨List.mem_singleton_self _, fun u hu => ?_⟩
    obtain rfl := List.mem_singleton.mp hu
    exact ⟨_, none, h, fun v hv => absurd hv (Option.not_mem_none v)⟩
  | @next t u ts _ _ h _ ih =>
    obtain ⟨hmem, hclosed⟩ := ih
    refine ⟨List.mem_cons_self, fun v hv => ?_⟩
    rcases List.mem_cons.mp hv with rfl | hv
    · refine ⟨_, some u, h, fun w hw => ?_⟩
      obtain rfl := Option.mem_some_iff.mp hw
      exact List.mem_cons_of_mem _ hmem
    · obtain ⟨r, next, hpage, hnext⟩ := hclosed v hv
      exact ⟨r, next, hpage, fun w hw => List.mem_cons_of_mem _ (hnext w hw)⟩

/-- Where a feed completes, every token that is reached has a page. -/
theorem Completes.page {records : List α} (h : Completes f records) {t : κ} (ht : Reached f t) :
    ∃ p, f.page t = some p := by
  obtain ⟨ts, hchain, -⟩ := h
  obtain ⟨hstart, hclosed⟩ := hchain.closed
  have hmem : t ∈ ts := by
    induction ht with
    | start => exact hstart
    | next _ hpage ih =>
      obtain ⟨r, next, hr, hnext⟩ := hclosed _ ih
      obtain ⟨-, rfl⟩ := Prod.mk.inj (Option.some.inj (hr.symm.trans hpage))
      exact hnext _ rfl
  obtain ⟨r, next, hpage, -⟩ := hclosed t hmem
  exact ⟨_, hpage⟩

namespace Visits

variable {seen : List κ} {out : List α} {t : κ}

theorem reached (h : Visits f seen out t) : Reached f t := by
  induction h with
  | start => exact .start
  | next _ _ hpage ih => exact ih.next hpage

theorem nodup (h : Visits f seen out t) : seen.Nodup := by
  induction h with
  | start => exact List.nodup_nil
  | next _ hnew _ ih => exact List.nodup_cons.mpr ⟨hnew, ih⟩

/-- From a token that was seen, the next one was gone to. -/
theorem next_of_mem (h : Visits f seen out t) {u : κ} (hu : u ∈ seen) :
    ∃ records v, f.page u = some (records, some v) ∧ v ∈ t :: seen := by
  induction h with
  | start => cases hu
  | @next seen out t w records _ _ hpage ih =>
    rcases List.mem_cons.mp hu with rfl | hu
    · exact ⟨records, w, hpage, List.mem_cons_self⟩
    · obtain ⟨r, v, hr, hv⟩ := ih hu
      exact ⟨r, v, hr, List.mem_cons_of_mem _ hv⟩

/-- A chain from where the reader is continues what it has read. -/
theorem chain (h : Visits f seen out t) {ts : List κ} {records : List α}
    (ht : Chain f t ts records) : Chain f f.start (seen.reverse ++ ts) (out ++ records) := by
  induction h generalizing ts records with
  | start => exact ht
  | next _ _ hpage ih =>
    rw [List.reverse_cons, List.append_assoc, List.append_assoc]
    exact ih (.next hpage ht)

/-- On a last page, the feed completes with what was read. -/
theorem completes (h : Visits f seen out t) (hnew : t ∉ seen) {records : List α}
    (hpage : f.page t = some (records, none)) : Completes f (out ++ records) := by
  refine ⟨_, h.chain (.last hpage), ?_⟩
  rw [← List.nodup_reverse, List.reverse_append, List.reverse_reverse]
  exact List.nodup_cons.mpr ⟨hnew, h.nodup⟩

/-- A reader that cannot go on to a new token has been to all that are reached. -/
theorem mem_of_reached (h : Visits f seen out t)
    (hstop : t ∈ seen ∨ ∀ records u, f.page t ≠ some (records, some u)) {u : κ}
    (hu : Reached f u) : u ∈ t :: seen := by
  have hclosed {v w : κ} {records : List α} (hv : v ∈ t :: seen)
      (hpage : f.page v = some (records, some w)) : w ∈ t :: seen := by
    have hseen : v ∈ seen := by
      rcases List.mem_cons.mp hv with rfl | hv
      · exact hstop.resolve_right fun hno => hno _ _ hpage
      · exact hv
    obtain ⟨r, x, hr, hx⟩ := h.next_of_mem hseen
    obtain ⟨-, hwx⟩ := Prod.mk.inj (Option.some.inj (hr.symm.trans hpage))
    exact Option.some.inj hwx ▸ hx
  have hstart : f.start ∈ t :: seen := by
    clear hstop hclosed hu
    induction h with
    | start => exact List.mem_cons_self
    | next _ _ _ ih => exact List.mem_cons_of_mem _ ih
  induction hu with
  | start => exact hstart
  | next _ hpage ih => exact hclosed ih hpage

/-- At a token that was seen or has no page, the feed does not complete. -/
theorem not_completes (h : Visits f seen out t) (hstop : t ∈ seen ∨ f.page t = none) :
    ¬ ∃ records, Completes f records := by
  rintro ⟨records, ts, hchain, -⟩
  obtain ⟨u, last, hu, hlast⟩ := hchain.exists_last .start
  have hseen {v : κ} (hv : v ∈ seen) : f.page v ≠ some (last, none) := by
    obtain ⟨r, x, hr, -⟩ := h.next_of_mem hv
    rw [hr]
    simp
  have hmem := h.mem_of_reached (hstop.imp_right fun hnone r x hr => by
    rw [hnone] at hr
    cases hr) hu
  rcases List.mem_cons.mp hmem with rfl | hmem
  · rcases hstop with hmem | hnone
    · exact hseen hmem hlast
    · rw [hnone] at hlast
      cases hlast
  · exact hseen hmem hlast

end Visits

end Preaction.Cursor
