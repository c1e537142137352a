import Timetable.Proofs.Server.Rows
import Timetable.Server.Pool

/-!
# What requests send to a server

A request about a list of records or ids sends a statement for each batch of it. `Sends` says that
this is all it does, and that the first statement that fails is the last one and refuses the
request. `Inserts` and `Mentions` say what the statements are read as: in the rows are the records,
and in the lists are the ids, each once and in order (`requests_carry`).
-/

namespace Timetable.Server

/-! ### Sending statements -/

/-- The answer to a statement that a number of others precede. -/
def Script.answer (s : Script) (k : Nat) : Reply := s.replies.getD k (.rows [] 0)

/-- The rows of an answer. -/
def Reply.cells : Reply → List Row
  | .rows cells _ => cells
  | .fault _ => []

/-- A number of statements are answered without a fault. -/
def Script.Accepts (s : Script) (count : Nat) : Prop := ∀ k < count, ∀ f, s.answer k ≠ .fault f

/-- A pool after some statements have been sent over it. -/
def Pool.exchanged (p : Pool) (qs : List Query) : Pool where
  __ := p
  script := { p.script with replies := p.script.replies.drop qs.length }
  events := p.events ++ qs.map fun q => .statement q.sql q.parameters

/-- A request sends some statements in order and does nothing else. It succeeds if the server
accepts all of them; otherwise the first one that fails is the last one that is sent. -/
structure Sends (x : Action (Pool × Transaction) Outcome) (qs : List Query) : Prop where
  accepted : ∀ p tx, p.script.Accepts qs.length → x.run (p, tx) = (.ok (.ok ()), p.exchanged qs, tx)
  refused : ∀ p tx k f, k < qs.length → p.script.Accepts k → p.script.answer k = .fault f →
    x.run (p, tx) = (.ok (.error f.toRefusal), p.exchanged (qs.take (k + 1)), tx)

namespace Pool

theorem exchanged_nil (p : Pool) : p.exchanged [] = p := by
  simp [exchanged]

theorem exchanged_cons (p : Pool) (q : Query) (qs : List Query) :
    (p.exchanged [q]).exchanged qs = p.exchanged (q :: qs) := by
  simp [exchanged]

theorem answer_exchanged (p : Pool) (q : Query) (k : Nat) :
    (p.exchanged [q]).script.answer k = p.script.answer (k + 1) := by
  simp [exchanged, Script.answer]

theorem accepts_exchanged {p : Pool} {q : Query} {count : Nat} (h : p.script.Accepts (count + 1)) :
    (p.exchanged [q]).script.Accepts count := by
  intro k hk f
  rw [answer_exchanged]
  exact h (k + 1) (Nat.succ_lt_succ hk) f

/-- A statement takes the next answer. -/
theorem run_ask (q : Query) (p : Pool) (tx : Transaction) :
    (ask q).run (p, tx) =
      match p.script.answer 0 with
      | .rows rows affected => (.ok (rows, affected), p.exchanged [q], tx)
      | .fault f => (.error (.server f), p.exchanged [q], tx) := by
  obtain ⟨conninfo, capacity, idle, live, made, gone, ⟨replies, connects, commits, aborts⟩, events⟩
    := p
  cases replies with
  | nil => rfl
  | cons r replies => cases r <;> rfl

theorem run_exchange_cons (found : List Row) (q : Query) (qs : List Query) (p : Pool)
    (tx : Transaction) :
    (exchange found (q :: qs)).run (p, tx) =
      match p.script.answer 0 with
      | .rows rows _ => (exchange (found ++ rows) qs).run (p.exchanged [q], tx)
      | .fault f => (.ok (.error f.toRefusal, found), p.exchanged [q], tx) := by
  have hask := run_ask q p tx
  have hattempt : (ask q).attempt.run (p, tx) =
      (.ok ((ask q).run (p, tx)).1, ((ask q).run (p, tx)).2) := rfl
  rw [hask] at hattempt
  cases hanswer : p.script.answer 0 with
  | rows rows affected =>
    rw [hanswer] at hattempt
    rw [exchange, Action.run_bind_of_ok hattempt]
  | fault f =>
    rw [hanswer] at hattempt
    rw [exchange, Action.run_bind_of_ok hattempt]
    rfl

theorem run_exchange_of_accepts {qs : List Query} {p : Pool} (tx : Transaction)
    (found : List Row) (h : p.script.Accepts qs.length) :
    (exchange found qs).run (p, tx) =
      (.ok (.ok (), found ++ (List.range qs.length).flatMap fun k => (p.script.answer k).cells),
        p.exchanged qs, tx) := by
  -- What remains to be sent meets a pool over which the first statement has been exchanged.
  induction qs generalizing p found with
  | nil =>
    rw [exchanged_nil]
    simp [exchange]
  | cons q qs ih =>
    rw [run_exchange_cons]
    cases hanswer : p.script.answer 0 with
    | fault f => exact absurd hanswer (h 0 (Nat.succ_pos _) f)
    | rows rows affected =>
      have hcells : rows = (p.script.answer 0).cells := by rw [hanswer]; rfl
      show (exchange (found ++ rows) qs).run (p.exchanged [q], tx) = _
      rw [ih (found ++ rows) (accepts_exchanged h), exchanged_cons, List.length_cons,
        List.range_succ_eq_map, List.flatMap_cons, List.flatMap_map, List.append_assoc, hcells]
      simp only [answer_exchanged]

theorem run_exchange_of_fault {qs : List Query} {p : Pool} (tx : Transaction) (found : List Row)
    {k : Nat} {f : Fault} (hk : k < qs.length) (h : p.script.Accepts k)
    (hf : p.script.answer k = .fault f) :
    ∃ rows, (exchange found qs).run (p, tx) =
      (.ok (.error f.toRefusal, rows), p.exchanged (qs.take (k + 1)), tx) := by
  induction qs generalizing p found k with
  | nil => cases hk
  | cons q qs ih =>
    rw [run_exchange_cons]
    cases k with
    | zero =>
      rw [hf]
      exact ⟨found, rfl⟩
    | succ k =>
      cases hanswer : p.script.answer 0 with
      | fault f => exact absurd hanswer (h 0 (Nat.succ_pos _) f)
      | rows rows affected =>
        rw [← answer_exchanged p q] at hf
        obtain ⟨rows, hrows⟩ := ih (found ++ rows) (Nat.lt_of_succ_lt_succ hk)
          (accepts_exchanged h) hf
        rw [exchanged_cons] at hrows
        exact ⟨rows, hrows⟩

theorem sends_askEach (qs : List Query) : Sends (askEach qs) qs where
  accepted p tx h := by
    rw [askEach, Action.run_bind_of_ok (run_exchange_of_accepts tx [] h)]
    rfl
  refused p tx k f hk h hf := by
    obtain ⟨rows, hrows⟩ := run_exchange_of_fault tx [] hk h hf
    rw [askEach, Action.run_bind_of_ok hrows]
    rfl

theorem sends_collect (qs : List Query) : Sends (do return (← collect qs).1) qs where
  accepted p tx h := by
    have hcollect := Action.run_bind_of_ok (run_exchange_of_accepts tx [] h)
      (f := fun found => pure (found.1, found.2.map (·.text 0)))
    exact Action.run_bind_of_ok hcollect
  refused p tx k f hk h hf := by
    obtain ⟨rows, hrows⟩ := run_exchange_of_fault tx [] hk h hf
    have hcollect := Action.run_bind_of_ok hrows
      (f := fun found => pure (found.1, found.2.map (·.text 0)))
    exact Action.run_bind_of_ok hcollect

end Pool

/-! ### Reading the statements -/

open Sql

/-- Statements insert records into a table. `read` takes a record from its row, and every parameter
stands in one place. -/
structure Inserts (table ending : String) (read : Query.NamedRow → Option α) (as : List α)
    (qs : List Query) : Prop where
  records : ∃ parts : List (List α), qs.map (Query.records? table ending read) = parts.map some ∧
    parts.flatten = as ∧ ∀ part ∈ parts, 1 ≤ part.length ∧ part.length ≤ 400
  numbered : ∀ q ∈ qs,
    numbers (pieces .dollar q.sql) = List.range' 1 q.parameters.length
  nothing : as = [] → qs = []

/-- The ids that stand in one of the lists of a statement. -/
def Query.listed (place : Nat) (q : Query) : List (Option String) :=
  ((inLists (pieces .dollar q.sql)).getD place []).map fun item =>
    (denoted q.parameters item).join

/-- Statements have a number of lists each, and every list is one of the given ids. -/
structure Mentions (places : Nat) (ids : List String) (qs : List Query) : Prop where
  lists : ∀ q ∈ qs, (inLists (pieces .dollar q.sql)).length = places
  listed : ∀ place < places, qs.flatMap (Query.listed place) = ids.map some
  numbered : ∀ q ∈ qs, ∀ n ∈ numbers (pieces .dollar q.sql),
    1 ≤ n ∧ n ≤ q.parameters.length
  nothing : ids = [] → qs = []

theorem inserts_batches {f : Query.RowFormat α} (h : f.Proper)
    {read : Query.NamedRow → Option α} (hread : ∀ a, read (f.columns.zip (f.cells a)) = some a)
    (hsize : batchSize * f.casts.length < UInt64.size) (as : List α) :
    Inserts f.table f.ending read as ((batches as).map (Query.insert f)) := by
  have hbatch : ∀ part ∈ batches as, part.length * f.casts.length < UInt64.size :=
    fun part hpart => Nat.lt_of_le_of_lt
      (Nat.mul_le_mul_right _ (length_of_mem_batches hpart).2) hsize
  constructor
  · refine ⟨batches as, ?_, flatten_batches as, fun part => length_of_mem_batches⟩
    rw [List.map_map]
    refine List.map_congr_left fun part hpart => ?_
    have hne := List.ne_nil_of_length_pos (length_of_mem_batches hpart).1
    exact h.records_insert hread hne (hbatch part hpart)
  · intro q hq
    obtain ⟨part, hpart, rfl⟩ := List.mem_map.1 hq
    exact h.numbers_insert (hbatch part hpart)
  · rintro rfl
    rw [batches_eq_nil.2 rfl, List.map_nil]

section

variable {l : Listing}

theorem inLists_aboutIds (h : l.Proper) {ids : List String} (hne : 0 < ids.length)
    (hsize : ids.length < UInt64.size) :
    inLists (pieces .dollar (Query.aboutIds l ids).sql) =
      List.replicate l.places ((List.range' 1 ids.length).map fun n => [.mark n]) :=
  h.reads_dollar hne hsize

theorem listed_aboutIds (h : l.Proper) {ids : List String} (hne : 0 < ids.length)
    (hsize : ids.length < UInt64.size) {place : Nat} (hplace : place < l.places) :
    (Query.aboutIds l ids).listed place = ids.map some := by
  have hmarks := @map_denoted_marks _ (ids.map some) 0 ids.length (by simp)
  rw [List.drop_zero, ← List.length_map some, List.take_length, List.length_map] at hmarks
  rw [Query.listed, inLists_aboutIds h hne hsize, List.getD_eq_getElem _ _ (by simpa using hplace),
    List.getElem_replicate]
  calc (((List.range' 1 ids.length).map fun n => [Piece.mark n]).map fun item =>
        (denoted (ids.map some) item).join)
      = (((List.range' 1 ids.length).map fun n => [Piece.mark n]).map
          (denoted (ids.map some))).map Option.join := by
          rw [List.map_map (g := Option.join)]
          rfl
    _ = ((ids.map some).map some).map Option.join := congrArg _ hmarks
    _ = ids.map some := by rw [List.map_map]; exact List.map_id _

theorem mentions_batches (h : l.Proper) (ids : List String) :
    Mentions l.places ids ((batches ids).map (Query.aboutIds l)) := by
  have hlength : ∀ part ∈ batches ids, 0 < part.length ∧ part.length < UInt64.size := by
    intro part hpart
    obtain ⟨hpos, hle⟩ := length_of_mem_batches hpart
    exact ⟨hpos, Nat.lt_of_le_of_lt hle (by decide)⟩
  constructor
  · intro q hq
    obtain ⟨part, hpart, rfl⟩ := List.mem_map.1 hq
    obtain ⟨hpos, hsize⟩ := hlength part hpart
    rw [inLists_aboutIds h hpos hsize, List.length_replicate]
  · intro place hplace
    have hparts : ∀ part ∈ batches ids,
        (Query.aboutIds l part).listed place = part.map some := by
      intro part hpart
      obtain ⟨hpos, hsize⟩ := hlength part hpart
      exact listed_aboutIds h hpos hsize hplace
    calc ((batches ids).map (Query.aboutIds l)).flatMap (Query.listed place)
        = ((batches ids).map fun part => part.map some).flatten := by
          rw [List.flatMap_map, List.flatMap_def, List.map_congr_left hparts]
      _ = (batches ids).flatten.map some := List.map_flatten.symm
      _ = ids.map some := by rw [flatten_batches]
  · intro q hq n hn
    obtain ⟨part, hpart, rfl⟩ := List.mem_map.1 hq
    have hnumbers : n ∈ (List.replicate l.places (List.range' 1 part.length)).flatten :=
      h.numbers_dollar (hlength part hpart).2 ▸ hn
    obtain ⟨ns, hns, hn⟩ := List.mem_flatten.1 hnumbers
    rw [List.eq_of_mem_replicate hns, List.mem_range'_1] at hn
    show 1 ≤ n ∧ n ≤ (part.map some).length
    rw [List.length_map]
    omega
  · rintro rfl
    rw [batches_eq_nil.2 rfl, List.map_nil]

end

/-- Requests about lists of records and ids send them batch by batch, neither more nor less. A
correlated subquery has the list twice. -/
theorem requests_carry :
    (∀ rs : List FlowRun, ∃ qs, Sends (Repository.insertRuns rs) qs ∧
      Inserts "flow_run" " ON CONFLICT DO NOTHING;" Query.NamedRow.run? rs qs) ∧
    (∀ ss : List RunState, ∃ qs, Sends (Repository.insertStates ss) qs ∧
      Inserts "flow_run_state" ";" Query.NamedRow.state? ss qs) ∧
    (∀ ids : List String,
      (∃ qs, Sends (do return (← Repository.statelessRunIds ids).1) qs ∧ Mentions 1 ids qs) ∧
      (∃ qs, Sends (Repository.linkStates .updateJoin ids) qs ∧ Mentions 1 ids qs) ∧
      ∃ qs, Sends (Repository.linkStates .correlatedSubquery ids) qs ∧ Mentions 2 ids qs) := by
  refine ⟨fun rs => ⟨_, Pool.sends_askEach _, ?_⟩, fun ss => ⟨_, Pool.sends_askEach _, ?_⟩,
    fun ids => ⟨⟨_, Pool.sends_collect _, ?_⟩, ⟨_, Pool.sends_askEach _, ?_⟩,
      _, Pool.sends_askEach _, ?_⟩⟩
  · exact inserts_batches Query.proper_runFormat Query.run?_cells (by decide) rs
  · exact inserts_batches Query.proper_stateFormat Query.state?_cells (by decide) ss
  · exact mentions_batches Listing.proper_statelessRuns ids
  · exact mentions_batches (Listing.proper_links .updateJoin) ids
  · exact mentions_batches (Listing.proper_links .correlatedSubquery) ids

end Timetable.Server
