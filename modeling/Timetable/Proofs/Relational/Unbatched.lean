import Timetable.Proofs.Relational.IdStatement
import Timetable.Proofs.Relational.Visible
import Timetable.Proofs.Sql.Reading

/-!
# Batches that nobody notices

A request about listed ids goes out in statements about 400 of them at most, and still does what one
statement about all of them would do (`Database.unbatched`). A statement that is sent binds one
value to each of its question marks, and each of its lists denotes the ids of its batch
(`IdStatement.Denotes`). Once a statement about some tables is carried out, so are the statements
about these tables that follow it (`Database.Allows`), and the runs that a batch points at states
are left alone by the next batch unless one run owns two different states (`Tables.OnePerRun`).
-/

namespace Timetable.Relational

open Text (untilNul)

/-! ### What a statement says -/

/-- A statement has as many values as question marks, no more than any engine allows, and all of its
lists denote some ids. -/
structure IdStatement.Denotes (q : IdStatement) (ids : List String) : Prop where
  numbers_eq : Sql.numbers (Sql.pieces .question q.sql) = List.range' 1 q.values.length
  length_le : q.values.length ≤ 999
  lists_eq : (Sql.inLists (Sql.pieces .question q.sql)).map (·.map (Sql.denoted q.values)) =
    List.replicate q.listing.places (ids.map some)
  listAt_eq : ∀ place < q.listing.places, q.listAt place = ids

/-- A statement that is bound in as many rounds as it has lists denotes what is bound. -/
theorem IdStatement.denotes_bind {listing : Sql.Listing} (h : listing.Proper)
    (hplaces : listing.places ≤ 2) {ids : List String} (hne : 0 < ids.length)
    (hlength : ids.length ≤ Sql.batchSize) :
    (bind listing listing.places ids).Denotes (ids.map untilNul) := by
  have hvalues : (bind listing listing.places ids).values.length = listing.places * ids.length := by
    simp [bind]
  have hlistAt : ∀ place < listing.places,
      (bind listing listing.places ids).listAt place = ids.map untilNul :=
    fun place hplace => listAt_bind hplace ids
  refine ⟨?_, ?_, ?_, hlistAt⟩
  · rw [hvalues]
    exact h.numbers_question ids.length
  · rw [hvalues]
    have := Nat.mul_le_mul hplaces hlength
    simp only [Sql.batchSize] at this
    omega
  · show (Sql.inLists (Sql.pieces .question (listing.text .question ids.length))).map _ =
      List.replicate listing.places ((ids.map untilNul).map some)
    rw [h.reads_question hne, List.map_map, List.eq_replicate_iff]
    refine ⟨by simp, fun item hitem => ?_⟩
    obtain ⟨place, hplace, rfl⟩ := List.mem_map.1 hitem
    rw [List.mem_range] at hplace
    have hfits : place * ids.length + ids.length ≤
        (bind listing listing.places ids).values.length := by
      rw [hvalues, ← Nat.succ_mul]
      exact Nat.mul_le_mul_right _ hplace
    rw [← hlistAt place hplace]
    exact Sql.map_denoted_marks hfits

theorem IdStatement.denotes_statelessRuns {ids : List String} (hne : 0 < ids.length)
    (hlength : ids.length ≤ Sql.batchSize) : (statelessRuns ids).Denotes (ids.map untilNul) :=
  denotes_bind Sql.Listing.proper_statelessRuns (by decide) hne hlength

/-- The ids are bound as often as their list stands in the statement that links. -/
theorem IdStatement.linkRounds_eq (strategy : LinkStrategy) :
    linkRounds strategy = (Sql.Listing.links strategy).places := by
  cases strategy <;> rfl

theorem IdStatement.denotes_links (strategy : LinkStrategy) {ids : List String}
    (hne : 0 < ids.length) (hlength : ids.length ≤ Sql.batchSize) :
    (links strategy ids).Denotes (ids.map untilNul) := by
  rw [links, linkRounds_eq]
  refine denotes_bind (Sql.Listing.proper_links strategy) ?_ hne hlength
  cases strategy <;> decide

/-! ### Statements that are carried out alike -/

/-- A statement about some tables that comes to a result whatever rows they have. -/
def Statement.total (writes : Bool) (uses : List TableName) (f : Tables → α × Tables) :
    Statement α :=
  ⟨writes, true, uses, [], fun t => .ok (f t)⟩

theorem Statement.missing_total_eq_none {writes : Bool} {uses present : List TableName}
    {f : Tables → α × Tables} :
    (Statement.total writes uses f).missing present = none ↔ ∀ table ∈ uses, table ∈ present := by
  have hfind : uses.find? (· ∉ present) = none ↔ ∀ table ∈ uses, table ∈ present := by
    simp [List.find?_eq_none]
  rw [← hfind, Statement.missing, Statement.total]
  cases uses.find? (· ∉ present) <;> simp

/-- A client that another one keeps from writing does not write. -/
theorem Client.execute_locked {s : Statement α} {blocked : Bool} {c : Client}
    (h : (s.writes && c.pending.isNone && blocked) = true) (file : File) :
    ∃ e, (c.execute s blocked file).1 = .error e := by
  simp only [Client.execute, h]
  split
  · exact ⟨_, rfl⟩
  split
  · exact ⟨_, rfl⟩
  · exact ⟨_, rfl⟩

theorem Client.execute_total {writes blocked : Bool} {uses : List TableName}
    (f : Tables → α × Tables) {file : File} {c : Client}
    (hlocked : (writes && c.pending.isNone && blocked) = false)
    (hmissing : (Statement.total writes uses f).missing (c.pending.getD file.tables).names = none)
    (hundamaged : file.damaged = false) :
    c.execute (.total writes uses f) blocked file =
      (.ok (f (c.pending.getD file.tables)).1,
        match c.pending with
        | some t => (file, { c with known := t.names, pending := some (f t).2 })
        | none => ({ file with tables := (f file.tables).2 },
            { c with known := file.tables.names })) := by
  have hlocked : ((Statement.total writes uses f).writes && c.pending.isNone && blocked) = false :=
    hlocked
  have hrun : ∀ t, (Statement.total writes uses f).run t = .ok (f t) := fun _ => rfl
  simp only [Client.execute, hlocked, hmissing, hundamaged, hrun, Bool.and_false,
    Bool.false_eq_true, false_and, if_false]
  cases c.pending <;> simp

/-- What hinders a statement does not depend on what it would do. -/
theorem Client.execute_total_error {α β : Type} {writes blocked : Bool} {uses : List TableName}
    {f : Tables → α × Tables} {file file' : File} {c c' : Client} {e : Stage × Fault}
    (h : c.execute (.total writes uses f) blocked file = (.error e, file', c'))
    (g : Tables → β × Tables) :
    c.execute (.total writes uses g) blocked file = (.error e, file', c') := by
  have hmissing : ∀ names, (Statement.total writes uses g).missing names =
      (Statement.total writes uses f).missing names := fun _ => rfl
  have hwrites : (Statement.total writes uses g).writes = (Statement.total writes uses f).writes :=
    rfl
  have hvisits : (Statement.total writes uses g).visitsRows =
      (Statement.total writes uses f).visitsRows := rfl
  simp only [Client.execute, hmissing, hwrites, hvisits] at h ⊢
  split at h
  · next hblocked =>
    rw [if_pos hblocked]
    cases h
    rfl
  next hblocked =>
  rw [if_neg hblocked]
  split at h
  · cases h
    rfl
  split at h
  · next hlocked =>
    rw [if_pos hlocked]
    cases h
    rfl
  next hlocked =>
  rw [if_neg hlocked]
  split at h
  · next hdamaged =>
    rw [if_pos hdamaged]
    cases h
    rfl
  split at h
  · next hrun => cases hrun
  · split at h <;> cases h

namespace Database

/-- Statements about some tables are carried out: the tables are there, no page is damaged, and the
other client does not keep this one from writing. -/
structure Allows (db : Database) (writes : Bool) (uses : List TableName) : Prop where
  undamaged : db.file.damaged = false
  mem_names : ∀ table ∈ uses, table ∈ db.visible.names
  free : writes = true → db.own.pending = none → db.other.pending = none

/-- What a statement leaves that makes the visible tables others. -/
def leave (x : Database × Transaction) (u : Tables) : Database × Transaction :=
  let own := { x.1.own with known := x.1.visible.names }
  match x.1.own.pending with
  | some _ => ({ x.1 with own := { own with pending := some u } }, x.2)
  | none => ({ x.1 with file := { x.1.file with tables := u }, own }, x.2)

variable {x x' : Database × Transaction} {writes : Bool} {uses : List TableName} {u v : Tables}

theorem visible_leave (x : Database × Transaction) (u : Tables) : (leave x u).1.visible = u := by
  rw [leave]
  cases hpending : x.1.own.pending with
  | some _ => rfl
  | none =>
    show x.1.own.pending.getD u = u
    rw [hpending]
    rfl

/-- Only the tables that were left last count, if they are there as before. -/
theorem leave_leave (hnames : u.names = x.1.visible.names) : leave (leave x u) v = leave x v := by
  have hknown := visible_leave x u
  rw [leave, hknown, leave, leave, hnames]
  cases hpending : x.1.own.pending with
  | some _ => rfl
  | none => simp only [hpending]

theorem Allows.leave (h : x.1.Allows writes uses) (hnames : u.names = x.1.visible.names) :
    (Database.leave x u).1.Allows writes uses := by
  refine ⟨?_, ?_, ?_⟩
  · rw [Database.leave]
    cases x.1.own.pending <;> exact h.undamaged
  · rw [visible_leave, hnames]
    exact h.mem_names
  · rw [Database.leave]
    cases hpending : x.1.own.pending with
    | some _ => exact fun _ hnone => nomatch hnone
    | none => exact fun hwrites _ => h.free hwrites hpending

/-- What the program's client makes of a statement, the store makes of it. -/
theorem run_execute_of_client {s : Statement α} {r : Except (Stage × Fault) α} {db : Database}
    {file : File} {own : Client}
    (h : db.own.execute s db.other.pending.isSome db.file = (r, file, own)) (tx : Transaction) :
    (execute s).run (db, tx) = (.ok r, { db with file, own }, tx) := by
  show (Except.ok (db.own.execute s db.other.pending.isSome db.file).1, _, _) = _
  rw [h]

/-- A statement that is allowed is carried out on the visible tables. -/
theorem run_execute_of_allows (h : x.1.Allows writes uses) (f : Tables → α × Tables) :
    (execute (.total writes uses f)).run x =
      (.ok (.ok (f x.1.visible).1), Database.leave x (f x.1.visible).2) := by
  obtain ⟨db, tx⟩ := x
  have hlocked : (writes && db.own.pending.isNone && db.other.pending.isSome) = false := by
    cases hwrites : writes with
    | false => rfl
    | true =>
      cases hpending : db.own.pending with
      | some _ => rfl
      | none =>
        rw [h.free hwrites hpending]
        rfl
  have hexecute := Client.execute_total f hlocked (Statement.missing_total_eq_none.2 h.mem_names)
    h.undamaged
  obtain ⟨file, ⟨pending, spoiled, known, met⟩, other, locked⟩ := db
  cases pending <;> exact run_execute_of_client hexecute tx

/-- One that is not allowed fails, whatever it would do. -/
theorem run_execute_of_not_allows (h : ¬ x.1.Allows writes uses) : ∃ e x', ∀ {α : Type}
    (f : Tables → α × Tables), (execute (.total writes uses f)).run x = (.ok (.error e), x') := by
  obtain ⟨db, tx⟩ := x
  rcases hexecute : db.own.execute (.total writes uses fun t => ((), t)) db.other.pending.isSome
    db.file with ⟨e | a, file, own⟩
  · exact ⟨e, _, fun f => run_execute_of_client (Client.execute_total_error hexecute f) tx⟩
  · exfalso
    apply h
    obtain ⟨hmissing, hsound, -, -⟩ := Client.execute_eq_ok hexecute
    refine ⟨?_, Statement.missing_total_eq_none.1 hmissing, ?_⟩
    · exact eq_false_of_ne_true fun hdamaged => hsound ⟨hdamaged, rfl⟩
    · intro hwrites hpending
      cases hother : db.other.pending with
      | none => rfl
      | some _ =>
        have hlocked : ((Statement.total writes uses fun t => ((), t)).writes &&
            db.own.pending.isNone && db.other.pending.isSome) = true := by
          rw [hother, hpending, Statement.total, hwrites]
          rfl
        obtain ⟨e, he⟩ := Client.execute_locked hlocked db.file
        rw [hexecute] at he
        cases he

end Database

/-! ### Links of several batches -/

namespace Tables

variable {t : Tables} {ids as bs : List String} {r : FlowRun} {q : RunState}

/-- No run owns two different ones of some states. -/
def OnePerRun (t : Tables) (ids : List String) : Prop :=
  ∀ s ∈ t.stateRows, ∀ q ∈ t.stateRows, s.id ∈ ids → q.id ∈ ids → s.runId = q.runId → s.id = q.id

/-- A run pointed at the listed state that it owns, if it owns one. -/
def linkedRow (t : Tables) (ids : List String) (r : FlowRun) : FlowRun :=
  match t.stateRows.find? fun s => s.id ∈ ids ∧ s.runId = r.id with
  | some s => { r with stateId := some s.id }
  | .none => r

theorem linkedRow_of_owns (hone : t.OnePerRun ids) (hq : q ∈ t.stateRows) (hid : q.id ∈ ids)
    (hrun : q.runId = r.id) : t.linkedRow ids r = { r with stateId := some q.id } := by
  rw [linkedRow]
  cases hfind : t.stateRows.find? fun s => s.id ∈ ids ∧ s.runId = r.id with
  | none =>
    rw [List.find?_eq_none] at hfind
    exact absurd (decide_eq_true ⟨hid, hrun⟩) (hfind q hq)
  | some s =>
    have howns := List.find?_some hfind
    obtain ⟨hsid, hsrun⟩ := of_decide_eq_true howns
    have hs := List.mem_of_find?_eq_some hfind
    show { r with stateId := some s.id } = _
    rw [hone s hs q hq hsid hid (hsrun.trans hrun.symm)]

theorem linkedRow_of_owns_none (h : ∀ s ∈ t.stateRows, s.id ∈ ids → s.runId ≠ r.id) :
    t.linkedRow ids r = r := by
  have hfind : (t.stateRows.find? fun s => s.id ∈ ids ∧ s.runId = r.id) = Option.none := by
    rw [List.find?_eq_none]
    intro s hs howns
    obtain ⟨hid, hrun⟩ := of_decide_eq_true howns
    exact h s hs hid hrun
  rw [linkedRow, hfind]

theorem mem_of_chosenState {strategy : LinkStrategy} {listed : Nat} {owned : List String}
    {a : String} (h : chosenState strategy listed owned = some a) : a ∈ owned := by
  cases strategy with
  | updateJoin => exact List.mem_mergeSort.1 (List.mem_of_getLast? h)
  | correlatedSubquery =>
    rw [chosenState] at h
    split at h
    · exact List.mem_mergeSort.1 (List.mem_of_head? h)
    · exact List.mem_of_head? h

/-- Both strategies point each run at the one listed state that it owns. -/
theorem linkStates_eq (hone : t.OnePerRun ids) (strategy : LinkStrategy) :
    t.linkStates strategy ids = { t with runs := some (t.runRows.map (t.linkedRow ids)) } := by
  rw [linkStates]
  congr 2
  refine List.map_congr_left fun r _ => ?_
  split
  · next a ha =>
    obtain ⟨q, hq, rfl⟩ := List.mem_map.1 (mem_of_chosenState ha)
    simp only [List.mem_filter, decide_eq_true_eq, beq_iff_eq] at hq
    obtain ⟨⟨hq, hid⟩, hrun⟩ := hq
    exact (linkedRow_of_owns hone hq hid hrun).symm
  · next hnone =>
    have howned := chosenState_eq_none_iff.1 hnone
    refine (linkedRow_of_owns_none fun s hs hid hrun => ?_).symm
    rw [List.map_eq_nil_iff, List.filter_eq_nil_iff] at howned
    exact howned s (List.mem_filter.2 ⟨hs, decide_eq_true hid⟩) (beq_iff_eq.2 hrun)

theorem OnePerRun.of_subset (h : t.OnePerRun ids) (hsubset : as ⊆ ids) : t.OnePerRun as :=
  fun s hs q hq hsid hqid => h s hs q hq (hsubset hsid) (hsubset hqid)

theorem linkedRow_append (hone : t.OnePerRun (as ++ bs)) (r : FlowRun) :
    t.linkedRow bs (t.linkedRow as r) = t.linkedRow (as ++ bs) r := by
  have has : t.OnePerRun as := hone.of_subset (List.subset_append_left _ _)
  have hbs : t.OnePerRun bs := hone.of_subset (List.subset_append_right _ _)
  by_cases hfirst : ∃ q ∈ t.stateRows, q.id ∈ as ∧ q.runId = r.id
  · obtain ⟨q, hq, hid, hrun⟩ := hfirst
    rw [linkedRow_of_owns has hq hid hrun,
      linkedRow_of_owns hone hq (List.mem_append_left _ hid) hrun]
    by_cases hsecond : ∃ s ∈ t.stateRows, s.id ∈ bs ∧ s.runId = r.id
    · obtain ⟨s, hs, hsid, hsrun⟩ := hsecond
      rw [linkedRow_of_owns (r := { r with stateId := some q.id }) hbs hs hsid hsrun,
        hone s hs q hq (List.mem_append_right _ hsid) (List.mem_append_left _ hid)
          (hsrun.trans hrun.symm)]
    · exact linkedRow_of_owns_none fun s hs hsid hsrun => hsecond ⟨s, hs, hsid, hsrun⟩
  · rw [linkedRow_of_owns_none fun s hs hsid hsrun => hfirst ⟨s, hs, hsid, hsrun⟩]
    by_cases hsecond : ∃ s ∈ t.stateRows, s.id ∈ bs ∧ s.runId = r.id
    · obtain ⟨s, hs, hsid, hsrun⟩ := hsecond
      rw [linkedRow_of_owns hbs hs hsid hsrun,
        linkedRow_of_owns hone hs (List.mem_append_right _ hsid) hsrun]
    · rw [linkedRow_of_owns_none fun s hs hsid hsrun => hsecond ⟨s, hs, hsid, hsrun⟩,
        linkedRow_of_owns_none]
      intro s hs hsid hsrun
      rcases List.mem_append.1 hsid with hsid | hsid
      · exact hfirst ⟨s, hs, hsid, hsrun⟩
      · exact hsecond ⟨s, hs, hsid, hsrun⟩

/-- Linking one batch after another is linking all at once. -/
theorem linkStates_append (hone : t.OnePerRun (as ++ bs)) (strategy : LinkStrategy) :
    (t.linkStates strategy as).linkStates strategy bs = t.linkStates strategy (as ++ bs) := by
  have has : t.OnePerRun as := hone.of_subset (List.subset_append_left _ _)
  have hbs : (t.linkStates strategy as).OnePerRun bs :=
    hone.of_subset (List.subset_append_right _ _)
  rw [linkStates_eq hbs, linkStates_eq has, linkStates_eq hone]
  congr 2
  show (t.runRows.map (t.linkedRow as)).map (t.linkedRow bs) = _
  rw [List.map_map]
  exact List.map_congr_left fun r _ => linkedRow_append hone r

theorem foldl_linkStates (strategy : LinkStrategy) {batches : List (List String)}
    (hone : t.OnePerRun (as ++ batches.flatten)) :
    batches.foldl (fun t part => t.linkStates strategy part) (t.linkStates strategy as) =
      t.linkStates strategy (as ++ batches.flatten) := by
  induction batches generalizing as with
  | nil => rw [List.flatten_nil, List.append_nil]; rfl
  | cons bs batches ih =>
    rw [List.flatten_cons, ← List.append_assoc] at hone ⊢
    rw [List.foldl_cons, linkStates_append (hone.of_subset (List.subset_append_left _ _)), ih hone]

theorem isSome_runs (h : .run ∈ t.names) : t.runs.isSome = true := by
  by_contra hnone
  simp [names, hnone] at h

theorem names_linkStates (h : .run ∈ t.names) (strategy : LinkStrategy) (ids : List String) :
    (t.linkStates strategy ids).names = t.names := by
  rw [names, names, isSome_runs h]
  rfl

/-- The runs without states among those that are listed. -/
theorem mem_statelessRunIds {id : String} : id ∈ t.statelessRunIds ids ↔
    id ∈ ids ∧ (∃ r ∈ t.runRows, r.id = id) ∧ ∀ s ∈ t.stateRows, s.runId ≠ id := by
  rw [statelessRunIds, List.mem_map]
  simp only [List.mem_filter, decide_eq_true_eq, Bool.not_eq_true', List.any_eq_false, beq_iff_eq]
  constructor
  · rintro ⟨r, ⟨hr, hids, hnone⟩, rfl⟩
    exact ⟨hids, ⟨r, hr, rfl⟩, hnone⟩
  · rintro ⟨hids, ⟨r, hr, rfl⟩, hnone⟩
    exact ⟨r, ⟨hr, hids, hnone⟩, rfl⟩

end Tables

namespace Database

variable {x : Database × Transaction} {u : Tables} {ids : List String}

/-! ### Requests -/

/-- The tables that statements about listed ids are about. -/
abbrev listedTables : List TableName := [.run, .state]

theorem run_linkStates_of_allows (h : x.1.Allows true listedTables) (strategy : LinkStrategy)
    (ids : List String) : (linkStates strategy ids).run x =
      (.ok (.ok ()), leave x (x.1.visible.linkStates strategy (ids.map untilNul))) := by
  have hrun := run_execute_of_allows h fun t =>
    ((), (IdStatement.links strategy ids).link strategy t)
  rw [← IdStatement.link_links]
  exact Action.run_bind_of_ok hrun

/-- Batches that follow one that has been carried out are carried out too. -/
theorem run_linkEach_leave (h : x.1.Allows true listedTables) (strategy : LinkStrategy)
    (hu : u.names = x.1.visible.names) (batches : List (List String)) :
    (changeEach (linkStates strategy) batches).run (leave x u) =
      (.ok (.ok ()), leave x ((batches.map (·.map untilNul)).foldl
        (fun t part => t.linkStates strategy part) u)) := by
  induction batches generalizing u with
  | nil => rfl
  | cons ids batches ih =>
    have hmem : .run ∈ u.names := hu ▸ h.mem_names .run (by simp)
    have hnames := (Tables.names_linkStates hmem strategy (ids.map untilNul)).trans hu
    have hrun := run_linkStates_of_allows (h.leave hu) strategy ids
    rw [visible_leave, leave_leave hu] at hrun
    rw [changeEach, Action.run_bind_of_ok hrun]
    exact ih hnames

theorem run_linkStates_unbatched {strategy : LinkStrategy}
    (hknows : x.1.version.knows strategy = true) (hne : ids ≠ [])
    (hone : x.1.visible.OnePerRun (ids.map untilNul)) :
    (Repository.linkStates strategy ids).run x = (linkStates strategy ids).run x := by
  show (linkBatches strategy ids).run x = _
  rw [run_linkBatches_of_knows hknows]
  obtain ⟨first, rest, hbatches⟩ :=
    List.exists_cons_of_ne_nil (mt Sql.batches_eq_nil.1 hne)
  have hids : first ++ rest.flatten = ids := by
    rw [← Sql.flatten_batches ids, hbatches, List.flatten_cons]
  rw [hbatches, changeEach]
  by_cases h : x.1.Allows true listedTables
  · have hnames :=
      Tables.names_linkStates (h.mem_names .run (by simp)) strategy (first.map untilNul)
    rw [← hids, List.map_append, List.map_flatten] at hone
    rw [Action.run_bind_of_ok (run_linkStates_of_allows h strategy first),
      run_linkStates_of_allows h strategy ids]
    refine (run_linkEach_leave h strategy hnames rest).trans ?_
    rw [Tables.foldl_linkStates strategy hone, ← List.map_flatten, ← List.map_append, hids]
  · obtain ⟨e, x', hrefused⟩ := run_execute_of_not_allows h
    have hrun : ∀ part, (linkStates strategy part).run x = (.ok (.error e.2.toRefusal), x') :=
      fun part => Action.run_bind_of_ok (hrefused fun t =>
        ((), (IdStatement.links strategy part).link strategy t))
    rw [Action.run_bind_of_ok (hrun first), hrun ids]
    rfl

/-- What one statement about some ids finds, if it is carried out. -/
theorem run_statelessStatement (h : x.1.Allows false listedTables) (ids : List String) :
    (execute (.query listedTables (IdStatement.statelessRuns ids).find)).run x =
      (.ok (.ok (x.1.visible.statelessRunIds (ids.map untilNul))), leave x x.1.visible) := by
  have hrun := run_execute_of_allows h fun t => ((IdStatement.statelessRuns ids).find t, t)
  rw [← IdStatement.find_statelessRuns]
  exact hrun

theorem run_statelessBatches_leave (h : x.1.Allows false listedTables) (found : List String)
    (batches : List (List String)) :
    (statelessRunIds found batches).run (leave x x.1.visible) =
      (.ok (.ok (), found ++ batches.flatMap fun part =>
        x.1.visible.statelessRunIds (part.map untilNul)), leave x x.1.visible) := by
  induction batches generalizing found with
  | nil =>
    rw [List.flatMap_nil, List.append_nil]
    rfl
  | cons ids batches ih =>
    have hrun := run_statelessStatement (h.leave rfl) ids
    rw [visible_leave, leave_leave rfl] at hrun
    rw [statelessRunIds, Action.run_bind_of_ok hrun, List.flatMap_cons, ← List.append_assoc]
    exact ih _

theorem run_statelessBatches (h : x.1.Allows false listedTables) {batches : List (List String)}
    (hne : batches ≠ []) : (statelessRunIds [] batches).run x =
      (.ok (.ok (), batches.flatMap fun part =>
        x.1.visible.statelessRunIds (part.map untilNul)), leave x x.1.visible) := by
  obtain ⟨first, rest, rfl⟩ := List.exists_cons_of_ne_nil hne
  rw [statelessRunIds, Action.run_bind_of_ok (run_statelessStatement h first), List.flatMap_cons]
  exact run_statelessBatches_leave h _ rest

theorem mem_flatMap_statelessRunIds (t : Tables) {batches : List (List String)} {id : String} :
    id ∈ batches.flatMap (fun part => t.statelessRunIds (part.map untilNul)) ↔
      id ∈ t.statelessRunIds (batches.flatten.map untilNul) := by
  simp only [List.mem_flatMap, Tables.mem_statelessRunIds, List.mem_map, List.mem_flatten]
  constructor
  · rintro ⟨part, hpart, ⟨a, ha, rfl⟩, hrest⟩
    exact ⟨⟨a, ⟨part, hpart, ha⟩, rfl⟩, hrest⟩
  · rintro ⟨⟨a, ⟨part, hpart, ha⟩, rfl⟩, hrest⟩
    exact ⟨part, hpart, ⟨a, ha, rfl⟩, hrest⟩

/-- Looking batch by batch ends as looking for all at once does, and finds the same. -/
theorem run_statelessRunIds_unbatched (hne : ids ≠ []) (x : Database × Transaction) :
    ∃ o found found' x', (Repository.statelessRunIds ids).run x = (.ok (o, found), x') ∧
      (statelessRunIds [] [ids]).run x = (.ok (o, found'), x') ∧
      ∀ id, id ∈ found ↔ id ∈ found' := by
  show ∃ o found found' x', (statelessRunIds [] (Sql.batches ids)).run x = _ ∧ _
  by_cases h : x.1.Allows false listedTables
  · refine ⟨_, _, _, _, run_statelessBatches h (mt Sql.batches_eq_nil.1 hne),
      run_statelessBatches h (List.cons_ne_nil _ _), fun id => ?_⟩
    rw [mem_flatMap_statelessRunIds, mem_flatMap_statelessRunIds, Sql.flatten_batches,
      List.flatten_singleton]
  · obtain ⟨first, rest, hbatches⟩ :=
      List.exists_cons_of_ne_nil (mt Sql.batches_eq_nil.1 hne)
    obtain ⟨e, x', hrefused⟩ := run_execute_of_not_allows h
    have hrun : ∀ part rest, (statelessRunIds [] (part :: rest)).run x =
        (.ok (.error e.2.toRefusal, []), x') := by
      intro part rest
      rw [statelessRunIds]
      exact Action.run_bind_of_ok (hrefused fun t => ((IdStatement.statelessRuns part).find t, t))
    rw [hbatches]
    exact ⟨_, _, _, _, hrun first rest, hrun ids [], fun _ => Iff.rfl⟩

/-- Those that are found are the listed runs that are stored and own no state. -/
theorem run_statelessRunIds_of_allows (h : x.1.Allows false listedTables) (ids : List String) :
    ∃ found x', (Repository.statelessRunIds ids).run x = (.ok (.ok (), found), x') ∧
      x'.1.visible = x.1.visible ∧
      ∀ id, id ∈ found ↔ id ∈ x.1.visible.statelessRunIds (ids.map untilNul) := by
  show ∃ found x', (statelessRunIds [] (Sql.batches ids)).run x = _ ∧ _
  by_cases hne : ids = []
  · subst hne
    refine ⟨[], x, by rw [Sql.batches_eq_nil.2 rfl]; rfl, rfl, fun id => ?_⟩
    rw [Tables.mem_statelessRunIds]
    simp
  · refine ⟨_, _, run_statelessBatches h (mt Sql.batches_eq_nil.1 hne), visible_leave _ _,
      fun id => ?_⟩
    rw [mem_flatMap_statelessRunIds, Sql.flatten_batches]

/-- Linking points each run at the listed state that it owns. -/
theorem run_linkStates_of_onePerRun (h : x.1.Allows true listedTables) {strategy : LinkStrategy}
    (hknows : x.1.version.knows strategy = true)
    (hone : x.1.visible.OnePerRun (ids.map untilNul)) :
    ∃ x', (Repository.linkStates strategy ids).run x = (.ok (.ok ()), x') ∧
      x'.1.visible = { x.1.visible with
        runs := x.1.visible.runs.map (·.map (x.1.visible.linkedRow (ids.map untilNul))) } := by
  obtain ⟨rows, hrows⟩ :=
    Option.isSome_iff_exists.1 (Tables.isSome_runs (h.mem_names .run (by simp)))
  by_cases hne : ids = []
  · subst hne
    refine ⟨x, ?_, ?_⟩
    · show (linkBatches strategy []).run x = _
      rw [run_linkBatches_of_knows hknows, Sql.batches_eq_nil.2 rfl]
      rfl
    · have hsame : rows.map (x.1.visible.linkedRow []) = rows :=
        List.map_id'' (fun r => Tables.linkedRow_of_owns_none (by simp)) rows
      rw [List.map_nil, hrows, Option.map_some, hsame, ← hrows]
  · refine ⟨_, (run_linkStates_unbatched hknows hne hone).trans
      (run_linkStates_of_allows h strategy ids), ?_⟩
    rw [visible_leave, Tables.linkStates_eq hone, Tables.runRows, hrows]
    rfl

/-- Requests about listed ids, however many there are. They go out in batches, each of which begins
where the one before it ends and holds 400 ids at most. A statement about a batch has a value for
each of its question marks, at most 999 of them, and all its lists denote the ids of the batch. Then
nobody notices the batches. Looking for runs without states ends as one statement would, and finds
the same runs, which are the listed ones that are stored and own no state if the statement is
allowed. Linking is what one statement does, if no run owns two different listed states: each owner
of one gets its id, and nothing else changes. An engine without that statement turns any number of
ids down before the first batch. Ids are listed up to their first U+0000. -/
theorem unbatched (ids : List String) (x : Database × Transaction) :
    let listed := ids.map untilNul
    ((Sql.batches ids).flatten = ids ∧ ∀ k part, (Sql.batches ids)[k]? = some part ↔
        part = (ids.drop (k * 400)).take 400 ∧ part ≠ []) ∧
      (∀ part ∈ Sql.batches ids, (IdStatement.statelessRuns part).Denotes (part.map untilNul) ∧
        ∀ strategy, (IdStatement.links strategy part).Denotes (part.map untilNul)) ∧
      (ids ≠ [] → ∃ o found found' x',
        (Repository.statelessRunIds ids).run x = (.ok (o, found), x') ∧
        (statelessRunIds [] [ids]).run x = (.ok (o, found'), x') ∧
        ∀ id, id ∈ found ↔ id ∈ found') ∧
      (x.1.Allows false listedTables → ∃ found x',
        (Repository.statelessRunIds ids).run x = (.ok (.ok (), found), x') ∧
        x'.1.visible = x.1.visible ∧
        ∀ id, id ∈ found ↔ id ∈ listed ∧ (∃ r ∈ x.1.visible.runRows, r.id = id) ∧
          ∀ s ∈ x.1.visible.stateRows, s.runId ≠ id) ∧
      (∀ strategy, x.1.version.knows strategy = false →
        (Repository.linkStates strategy ids).run x = (.ok (.error x.1.version.tooOld), x)) ∧
      ∀ strategy, x.1.version.knows strategy = true → x.1.visible.OnePerRun listed →
        (ids ≠ [] → (Repository.linkStates strategy ids).run x = (linkStates strategy ids).run x) ∧
        (x.1.Allows true listedTables → ∃ x',
          (Repository.linkStates strategy ids).run x = (.ok (.ok ()), x') ∧
          x'.1.visible = { x.1.visible with
            runs := x.1.visible.runs.map (·.map (x.1.visible.linkedRow listed)) } ∧
          ∀ r, (∀ s ∈ x.1.visible.stateRows, s.id ∈ listed → s.runId = r.id →
              x.1.visible.linkedRow listed r = { r with stateId := some s.id }) ∧
            ((∀ s ∈ x.1.visible.stateRows, s.id ∈ listed → s.runId ≠ r.id) →
              x.1.visible.linkedRow listed r = r)) := by
  intro listed
  refine ⟨⟨Sql.flatten_batches ids, fun k part => Sql.getElem?_batches_eq_some⟩,
    fun part hpart => ?_, fun hne => run_statelessRunIds_unbatched hne x, fun h => ?_,
    fun strategy hlacks => run_linkBatches_of_not_knows (by simp [hlacks]) ids,
    fun strategy hknows hone =>
      ⟨fun hne => run_linkStates_unbatched hknows hne hone, fun h => ?_⟩⟩
  · obtain ⟨hpos, hlength⟩ := Sql.length_of_mem_batches hpart
    exact ⟨IdStatement.denotes_statelessRuns hpos hlength,
      fun strategy => IdStatement.denotes_links strategy hpos hlength⟩
  · obtain ⟨found, x', hrun, hvisible, hfound⟩ := run_statelessRunIds_of_allows h ids
    refine ⟨found, x', hrun, hvisible, fun id => ?_⟩
    rw [hfound, Tables.mem_statelessRunIds]
  · obtain ⟨x', hrun, hvisible⟩ := run_linkStates_of_onePerRun h hknows hone
    refine ⟨x', hrun, hvisible, fun r => ⟨fun s hs hid hr => ?_, fun hnone => ?_⟩⟩
    · exact Tables.linkedRow_of_owns hone hs hid hr
    · exact Tables.linkedRow_of_owns_none hnone

/-- A run that owns a state. -/
def ownerRun : FlowRun := ⟨"owner", "flow", "", "{}", "first", "[]", "", true, none, 0⟩

/-- A run that owns none. -/
def idleRun : FlowRun := ⟨"idle", "flow", "", "{}", "second", "[]", "", true, none, 0⟩

/-- The rows of the two runs and of the state. -/
def ownerRows : Tables :=
  ⟨some [], some [], some [ownerRun, idleRun], some [⟨"state", "owner", 1, "", "{}", 0⟩]⟩

/-- More ids than a batch holds, of which the first and the last are of interest. -/
def manyIds (id : String) : List String := id :: List.replicate 400 "unknown" ++ [id]

theorem mem_manyIds {a id : String} : a ∈ manyIds id ↔ a = id ∨ a = "unknown" := by
  have hunknown : a ∈ List.replicate 400 "unknown" ↔ a = "unknown" := List.mem_replicate.trans (by
    simp only [ne_eq, Nat.reduceEqDiff, not_false_eq_true, true_and])
  rw [manyIds, List.mem_append, List.mem_cons, hunknown, List.mem_singleton]
  tauto

theorem map_untilNul_manyIds {id : String} (h : Text.NulFree id) :
    (manyIds id).map untilNul = manyIds id := by
  refine map_untilNul_of_nulFree fun a ha => ?_
  rcases mem_manyIds.1 ha with rfl | rfl
  · exact h
  · decide

/-- In a transaction over these rows, the idle run is found though it is listed in both of two
batches, and the owner is pointed at its state by either strategy. An engine that is too old for one
of them says so. -/
theorem unbatched_owner :
    let x := (copying .current).busy .empty ownerRows
    let y := (copying ⟨3032003, "3.32.3"⟩).busy .empty ownerRows
    (Sql.batches (manyIds "idle")).map List.length = [400, 2] ∧
      (∃ found x', (Repository.statelessRunIds (manyIds "idle")).run x =
          (.ok (.ok (), found), x') ∧ ∀ id, id ∈ found ↔ id = "idle") ∧
      (∀ strategy, ∃ x', (Repository.linkStates strategy (manyIds "state")).run x =
          (.ok (.ok ()), x') ∧
        x'.1.visible.runRows.map (fun r => (r.id, r.stateId)) =
          [("owner", some "state"), ("idle", none)]) ∧
      (Repository.linkStates .updateJoin (manyIds "state")).run y =
        (.ok (.error (.reported .unsupported
          "UPDATE ... FROM requires sqlite 3.33, have 3.32.3")), y) := by
  intro x y
  have hallows : ∀ writes, x.1.Allows writes listedTables := fun writes =>
    ⟨rfl, by decide, fun _ hnone => nomatch hnone⟩
  obtain ⟨-, -, -, hfinds, -, -⟩ := unbatched (manyIds "idle") x
  obtain ⟨-, -, -, -, -, hlinks⟩ := unbatched (manyIds "state") x
  obtain ⟨-, -, -, -, hold, -⟩ := unbatched (manyIds "state") y
  refine ⟨by decide +kernel, ?_, fun strategy => ?_, hold .updateJoin rfl⟩
  · obtain ⟨found, x', hrun, -, hfound⟩ := hfinds (hallows false)
    have hruns : x.1.visible.runRows.map FlowRun.id = ["owner", "idle"] := rfl
    have hstates : x.1.visible.stateRows.map RunState.runId = ["owner"] := rfl
    refine ⟨found, x', hrun, fun id => ?_⟩
    rw [hfound, map_untilNul_manyIds (by decide), ← List.mem_map, hruns,
      ← List.forall_mem_map (P := (· ≠ id)), hstates]
    constructor
    · rintro ⟨-, hrun, hnone⟩
      simp at hrun hnone
      exact hrun.resolve_left (Ne.symm hnone)
    · rintro rfl
      exact ⟨mem_manyIds.2 (.inl rfl), by decide, by decide⟩
  · have hone : x.1.visible.OnePerRun ((manyIds "state").map untilNul) := by
      intro s hs q hq _ _ _
      rw [List.mem_singleton.1 hs, List.mem_singleton.1 hq]
    obtain ⟨-, hcarried⟩ := hlinks strategy (by cases strategy <;> rfl) hone
    obtain ⟨x', hrun, hvisible, hrows⟩ := hcarried (hallows true)
    rw [map_untilNul_manyIds (by decide)] at hvisible hrows
    have howner : x.1.visible.linkedRow (manyIds "state") ownerRun =
        { ownerRun with stateId := some "state" } :=
      (hrows ownerRun).1 _ List.mem_cons_self (mem_manyIds.2 (.inl rfl)) rfl
    have hidle : x.1.visible.linkedRow (manyIds "state") idleRun = idleRun := by
      refine (hrows idleRun).2 fun s hs _ => ?_
      rw [List.mem_singleton.1 hs]
      decide
    have hruns : x'.1.visible.runRows =
        [ownerRun, idleRun].map (x.1.visible.linkedRow (manyIds "state")) := by
      rw [hvisible]
      rfl
    refine ⟨x', hrun, ?_⟩
    rw [hruns, List.map_cons, List.map_singleton, howner, hidle]
    rfl

end Database

end Timetable.Relational
