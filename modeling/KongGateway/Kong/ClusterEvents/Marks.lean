import Mathlib.Data.List.Nodup
import KongGateway.Kong.ClusterEvents.Delivery

/-!
# Marks — no event is handed out twice

A row is selected again as long as its time is not before the time of the
last poll, less the offset; the mark of a row outlives that by two
intervals.
-/

namespace KongGateway.Kong.ClusterEvents

variable {config : Config} {s : State} {poll : Poll}

/-- The marks of rows that are selected from a mark on outlive a poll by two
intervals. -/
def Fresh (config : Config) (s : State) (mark time : Nat) : Prop :=
  ∀ entry ∈ s.handed, mark ≤ entry.1.eventAt + config.pollOffset →
    ∀ expires, s.marks entry.1.id = some expires → time + config.pollInterval * 2 ≤ expires

/-- What holds of the rows that have been handed out. -/
structure Marked (config : Config) (s : State) : Prop where
  lastPoll_le : s.lastPoll ≤ s.clock
  ids : (s.rows.map Row.id).Nodup
  nodup : NotRepeated s
  handed : ∀ entry ∈ s.handed, entry.1 ∈ s.rows ∧ entry.1.channel ∈ config.channels
    ∧ entry.1.eventAt ≤ s.clock ∧ ∃ expires, s.marks entry.1.id = some expires
      ∧ entry.1.eventAt + config.eventTtlShm ≤ expires
  fresh : Fresh config s s.currentAt s.lastPoll

/-- What holds of a poll under way. -/
structure Polling (config : Config) (s : State) (poll : Poll) : Prop where
  since_le : poll.since ≤ s.clock
  fresh : Fresh config s poll.mark poll.since
  first : poll.page = 0 → poll.mark = s.currentAt
  todo : ∀ row ∈ poll.todo, row ∈ s.rows ∧ row.channel ∈ config.channels
    ∧ poll.mark ≤ row.eventAt + config.pollOffset ∧ row.eventAt ≤ s.clock

def Unrepeated (config : Config) (s : State) : Prop :=
  Marked config s ∧ ∀ poll, s.poll = some poll → Polling config s poll

theorem unrepeated_of_marked (h : Marked config s) (hpoll : s.poll = none) :
    Unrepeated config s :=
  ⟨h, fun poll hsome => by rw [hpoll] at hsome; cases hsome⟩

theorem unrepeated_finish (h : Marked config s) (time : Nat) :
    Unrepeated config (finish s time) :=
  unrepeated_of_marked ⟨h.lastPoll_le, h.ids, h.nodup, h.handed, h.fresh⟩ rfl

theorem unrepeated_giveUp (h : Marked config s) : Unrepeated config (giveUp s) :=
  unrepeated_of_marked ⟨h.lastPoll_le, h.ids, h.nodup, h.handed, h.fresh⟩ rfl

theorem unrepeated_advance (h : Marked config s) (hpoll : Polling config s poll) :
    Unrepeated config (advance s poll) := by
  unfold advance
  split
  · exact unrepeated_finish h _
  · refine ⟨⟨h.lastPoll_le, h.ids, h.nodup, h.handed, h.fresh⟩, ?_⟩
    rintro other ⟨rfl⟩
    exact ⟨hpoll.since_le, hpoll.fresh, hpoll.first, hpoll.todo⟩

theorem Marked.entry (h : Marked config s) {row : Row} (hrow : row ∈ s.rows)
    (hmem : row.id ∈ s.handed.map fun entry => entry.1.id) :
    ∃ entry ∈ s.handed, entry.1 = row := by
  obtain ⟨entry, hentry, hid⟩ := List.mem_map.mp hmem
  refine ⟨entry, hentry, ?_⟩
  exact List.inj_on_of_nodup_map h.ids (h.handed entry hentry).1 hrow hid

theorem unrepeated_processEvent (h : Marked config s) (hpoll : Polling config s poll) {row : Row}
    {rest : List Row} (htodo : poll.todo = row :: rest)
    (hprompt : s.clock < poll.since + config.pollInterval * 2) (getOk setOk : Bool) :
    Unrepeated config (processEvent config s poll row rest getOk setOk) := by
  obtain ⟨hrow, hchannel, hmark, hat⟩ := hpoll.todo row (by rw [htodo]; exact List.mem_cons_self)
  have hnext : ∀ other ∈ rest, other ∈ poll.todo := fun other hother => by
    rw [htodo]
    exact List.mem_cons_of_mem row hother
  have hskip : Unrepeated config (advance s { poll with todo := rest }) :=
    unrepeated_advance h ⟨hpoll.since_le, hpoll.fresh, hpoll.first,
      fun other hother => hpoll.todo other (hnext other hother)⟩
  unfold processEvent
  simp only
  split
  · exact hskip
  · split
    · exact unrepeated_giveUp h
    · split
      · exact hskip
      · split
        · exact unrepeated_giveUp h
        · rename_i hdead _
          -- a row that has been handed out would still be marked
          have hnew : row.id ∉ s.handed.map fun entry => entry.1.id := by
            intro hmem
            obtain ⟨entry, hentry, rfl⟩ := h.entry hrow hmem
            obtain ⟨-, -, -, expires, hexpires, -⟩ := h.handed entry hentry
            have hle := hpoll.fresh entry hentry hmark expires hexpires
            rw [hexpires] at hdead
            simp only [Option.any_some, decide_eq_true_eq] at hdead
            omega
          have hother : ∀ entry ∈ s.handed, entry.1.id ≠ row.id := fun entry hentry heq =>
            hnew (List.mem_map.mpr ⟨entry, hentry, heq⟩)
          have hfresh : ∀ mark time, time ≤ s.clock → Fresh config s mark time →
              Fresh config
                { s with
                  marks := fun id =>
                    if id = row.id then some (s.clock + config.eventTtlShm) else s.marks id
                  handed := s.handed ++ [(row, (row.nbf.getD 0) - s.clock)] } mark time := by
            intro mark time htime hold entry hentry hle expires hexpires
            rcases List.mem_append.mp hentry with hentry | hentry
            · simp only [if_neg (hother entry hentry)] at hexpires
              exact hold entry hentry hle expires hexpires
            · rw [List.mem_singleton.mp hentry] at hexpires
              simp only [if_true, Option.some.injEq, Config.eventTtlShm] at hexpires
              omega
          refine unrepeated_advance ⟨h.lastPoll_le, h.ids, ?_, ?_, hfresh _ _ h.lastPoll_le h.fresh⟩
            ⟨hpoll.since_le, hfresh _ _ hpoll.since_le hpoll.fresh, hpoll.first,
              fun other hmem => hpoll.todo other (hnext other hmem)⟩
          · have hnodup := h.nodup
            unfold NotRepeated at hnodup ⊢
            rw [List.map_append, List.map_cons, List.map_nil, List.nodup_append]
            refine ⟨hnodup, List.nodup_singleton _, ?_⟩
            intro id hid other hmem heq
            rw [List.mem_singleton.mp hmem] at heq
            exact hnew (heq ▸ hid)
          · intro entry hentry
            rcases List.mem_append.mp hentry with hentry | hentry
            · obtain ⟨hin, hchan, hle, expires, hexpires, hlong⟩ := h.handed entry hentry
              refine ⟨hin, hchan, hle, expires, ?_, hlong⟩
              simp only [if_neg (hother entry hentry)]
              exact hexpires
            · rw [List.mem_singleton.mp hentry]
              exact ⟨hrow, hchannel, hat, _, if_pos rfl, Nat.add_le_add_right hat _⟩

theorem unrepeated_query (h : Marked config s) (hpoll : Polling config s poll)
    {order : List Row} (horder : Listing config s poll order) (queryOk setOk : Bool) :
    Unrepeated config (query s poll order queryOk setOk) := by
  have hqueried : ∀ queried, Marked config { s with queried := queried } := fun _ =>
    ⟨h.lastPoll_le, h.ids, h.nodup, h.handed, h.fresh⟩
  have hpage : ∀ row ∈ (order.drop (poll.page * pageSize)).take pageSize, row ∈ s.rows
      ∧ row.channel ∈ config.channels ∧ poll.mark ≤ row.eventAt + config.pollOffset
      ∧ row.eventAt ≤ s.clock := fun row hrow =>
    (mem_listing horder).mp (List.mem_of_mem_drop (List.mem_of_mem_take hrow))
  unfold query
  simp only
  split
  · exact unrepeated_finish (hqueried s.clock) _
  · split
    · rename_i hempty
      split
      · rename_i hfirst
        -- nothing is selected, so no row that has been handed out
        have hfresh : Fresh config { s with queried := s.clock, lastPoll := s.clock } s.currentAt
            s.clock := by
          intro entry hentry hmark
          obtain ⟨hrow, hchannel, hat, -⟩ := h.handed entry hentry
          have hmem : entry.1 ∈ order :=
            (mem_listing horder).mpr ⟨hrow, hchannel, by rw [hpoll.first hfirst]; exact hmark, hat⟩
          rw [hfirst, Nat.zero_mul, List.drop_zero, List.take_eq_nil_iff] at hempty
          rcases hempty with hzero | hnil
          · cases hzero
          · rw [hnil] at hmem
            cases hmem
        have hmarked : Marked config { s with queried := s.clock, lastPoll := s.clock } :=
          ⟨Nat.le_refl _, h.ids, h.nodup, h.handed, hfresh⟩
        exact unrepeated_finish hmarked _
      · exact unrepeated_finish (hqueried s.clock) _
    · split
      · exact unrepeated_giveUp (hqueried s.clock)
      · split
        · refine unrepeated_advance ⟨Nat.le_refl _, h.ids, h.nodup, h.handed, ?_⟩
            ⟨hpoll.since_le, hpoll.fresh, fun hzero => (nomatch hzero), hpage⟩
          intro entry hentry hmark expires hexpires
          obtain ⟨-, -, -, other, hother, hlong⟩ := h.handed entry hentry
          cases hexpires.symm.trans hother
          simp only [Config.eventTtlShm] at hlong hmark ⊢
          omega
        · exact unrepeated_advance (hqueried s.clock)
            ⟨hpoll.since_le, hpoll.fresh, fun hzero => (nomatch hzero), hpage⟩

theorem unrepeated_step (h : Unrepeated config s) {event : Event}
    (hguard : Prompt config s event) : Unrepeated config (step config s event) := by
  obtain ⟨hmarked, hpoll⟩ := h
  cases event with
  | insert row =>
    unfold step
    simp only
    split
    · rename_i hinsert
      refine ⟨⟨hmarked.lastPoll_le, ?_, hmarked.nodup, ?_, hmarked.fresh⟩, ?_⟩
      · rw [List.map_append, List.map_cons, List.map_nil, List.nodup_append]
        refine ⟨hmarked.ids, List.nodup_singleton _, ?_⟩
        intro id hid other hmem heq
        obtain ⟨old, hold, rfl⟩ := List.mem_map.mp hid
        rw [List.mem_singleton.mp hmem] at heq
        exact hinsert.2.2 old hold heq
      · intro entry hentry
        obtain ⟨hrow, hrest⟩ := hmarked.handed entry hentry
        exact ⟨List.mem_append_left _ hrow, hrest⟩
      · intro poll hsome
        have hold := hpoll poll hsome
        refine ⟨hold.since_le, hold.fresh, hold.first, fun other hother => ?_⟩
        obtain ⟨hrow, hrest⟩ := hold.todo other hother
        exact ⟨List.mem_append_left _ hrow, hrest⟩
    · exact ⟨hmarked, hpoll⟩
  | tick now =>
    unfold step
    simp only
    split
    · rename_i hle
      refine ⟨⟨Nat.le_trans hmarked.lastPoll_le hle, hmarked.ids, hmarked.nodup, ?_,
        hmarked.fresh⟩, ?_⟩
      · intro entry hentry
        obtain ⟨hrow, hchannel, hat, hrest⟩ := hmarked.handed entry hentry
        exact ⟨hrow, hchannel, Nat.le_trans hat hle, hrest⟩
      · intro poll hsome
        have hold := hpoll poll hsome
        refine ⟨Nat.le_trans hold.since_le hle, hold.fresh, hold.first, fun other hother => ?_⟩
        obtain ⟨hrow, hchannel, hmark, hat⟩ := hold.todo other hother
        exact ⟨hrow, hchannel, hmark, Nat.le_trans hat hle⟩
    · exact ⟨hmarked, hpoll⟩
  | poll getOk =>
    unfold step
    simp only
    split
    · split
      · refine ⟨⟨hmarked.lastPoll_le, hmarked.ids, hmarked.nodup, hmarked.handed,
          hmarked.fresh⟩, ?_⟩
        rintro poll ⟨rfl⟩
        exact ⟨hmarked.lastPoll_le, hmarked.fresh, fun _ => rfl, fun _ hrow => (nomatch hrow)⟩
      · exact ⟨hmarked, hpoll⟩
    · exact ⟨hmarked, hpoll⟩
  | query order queryOk setOk =>
    unfold step
    simp only
    split
    · rename_i poll hsome
      split
      · rename_i hpossible
        exact unrepeated_query hmarked (hpoll poll hsome) hpossible.2 queryOk setOk
      · exact ⟨hmarked, hpoll⟩
    · exact ⟨hmarked, hpoll⟩
  | process getOk setOk =>
    unfold step
    simp only
    split
    · rename_i poll hsome
      split
      · rename_i row rest htodo
        exact unrepeated_processEvent hmarked (hpoll poll hsome) htodo (hguard poll hsome) getOk
          setOk
      · exact ⟨hmarked, hpoll⟩
    · exact ⟨hmarked, hpoll⟩

/-- In runs without failures, with rows of one time always listed in the same
order, every event is handed out by the polls that return true; in runs whose
rows are processed less than two intervals after the last poll before, no
event is handed out twice. -/
theorem events_delivered_once (start : Nat) (rows : List Row)
    (hids : (rows.map Row.id).Nodup) (events : List Event) :
    (∀ rank, Run.Guarded (step config) (Reliable rank) (init start rows) events →
      Delivered config start (Run.exec (step config) (init start rows) events))
    ∧ (Run.Guarded (step config) (Prompt config) (init start rows) events →
      NotRepeated (Run.exec (step config) (init start rows) events)) := by
  refine ⟨fun rank h => delivered_of_reliable h, fun h => ?_⟩
  have hstep : ∀ s event, Unrepeated config s → Prompt config s event →
      Unrepeated config (step config s event) := fun _ _ hs hguard => unrepeated_step hs hguard
  have hmarked : Marked config (init start rows) :=
    ⟨Nat.le_refl _, hids, List.nodup_nil, fun _ hentry => (nomatch hentry),
      fun _ hentry => (nomatch hentry)⟩
  exact (h.invariant hstep (unrepeated_of_marked hmarked rfl)).1.nodup

/-! ## One event -/

def sampleConfig : Config :=
  { nodeId := Bytes.ofText "a"
    channels := [Bytes.ofText "invalidations"]
    pollInterval := 5000
    pollOffset := 1000 }

/-- An event of another node. -/
def sampleRow : Row :=
  { id := 1
    nodeId := Bytes.ofText "b"
    channel := Bytes.ofText "invalidations"
    data := Bytes.ofText "routes"
    eventAt := 100500 }

/-- Two polls, the first of which sees the event; `setOk` is whether it can be
marked. -/
def twoPolls (setOk : Bool) : List Event :=
  [.tick 100600, .insert sampleRow, .tick 105000, .poll true, .query [sampleRow] true true,
    .process true setOk, .tick 110000, .poll true, .query [] true true]

theorem event_handed_out :
    Delivered sampleConfig 100000 (Run.exec (step sampleConfig) (init 100000 []) (twoPolls true))
      ∧ NotRepeated (Run.exec (step sampleConfig) (init 100000 []) (twoPolls true))
      ∧ (Run.exec (step sampleConfig) (init 100000 []) (twoPolls true)).handed
        = [(sampleRow, 0)] := by
  have hreliable : Run.Guarded (step sampleConfig) (Reliable id) (init 100000 [])
      (twoPolls true) :=
    ⟨trivial, trivial, trivial, trivial, fun _ => ⟨rfl, List.pairwise_singleton _ _⟩,
      fun _ => ⟨rfl, rfl⟩, trivial, trivial, fun _ => ⟨rfl, List.Pairwise.nil⟩, trivial⟩
  have hprompt : Run.Guarded (step sampleConfig) (Prompt sampleConfig) (init 100000 [])
      (twoPolls true) := by
    refine ⟨trivial, trivial, trivial, trivial, trivial, fun poll hpoll => ?_, trivial, trivial,
      trivial, trivial⟩
    have hsince : (Run.exec (step sampleConfig) (init 100000 [])
        ((twoPolls true).take 5)).poll.all fun poll => 105000 < poll.since + 10000 := by
      decide +kernel
    have hexec : (Run.exec (step sampleConfig) (init 100000 []) ((twoPolls true).take 5)).poll
        = some poll := hpoll
    rw [hexec, Option.all_some, decide_eq_true_eq] at hsince
    exact hsince
  obtain ⟨hdelivered, hrepeated⟩ :=
    events_delivered_once 100000 [] List.nodup_nil (twoPolls true)
  exact ⟨hdelivered id hreliable, hrepeated hprompt, by decide +kernel⟩

/-- The event cannot be marked in the first poll, which has already stored its
time; the second one does not see it. -/
theorem event_lost :
    ¬ Delivered sampleConfig 100000
      (Run.exec (step sampleConfig) (init 100000 []) (twoPolls false)) := by
  intro h
  have hdone := h 110000 (by decide +kernel) sampleRow (by decide +kernel) (by decide +kernel)
    (by decide) (by decide)
  rcases hdone with hown | hmem
  · exact absurd hown (by decide +kernel)
  · revert hmem
    decide +kernel

end KongGateway.Kong.ClusterEvents
