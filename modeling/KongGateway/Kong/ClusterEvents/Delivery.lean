import KongGateway.Kong.ClusterEvents

/-!
# Delivery — every event is handed out

A row that is due when the first page of a poll is queried is visible by
then. As rows that become visible later only move it to later pages, it is
either done, or on the current page, or on a page to come.
-/

namespace KongGateway.Kong.ClusterEvents

variable {config : Config} {rank : Nat → Nat} {start : Nat} {s : State} {poll : Poll}

/-! ## Pages of a listing -/

theorem Before.asymm {row next : Row} (h : Before rank row next) : ¬ Before rank next row := by
  unfold Before at *
  omega

theorem countP_before {order pre post : List Row} {row : Row}
    (h : order.Pairwise (Before rank)) (horder : order = pre ++ row :: post) :
    order.countP (fun other => Before rank other row) = pre.length := by
  subst horder
  rw [List.pairwise_append, List.pairwise_cons] at h
  rw [List.countP_append, List.countP_cons]
  have hpre : pre.countP (fun other => decide (Before rank other row)) = pre.length :=
    List.countP_eq_length.mpr fun other hother => by
      simpa using h.2.2 other hother row List.mem_cons_self
  have hpost : post.countP (fun other => decide (Before rank other row)) = 0 :=
    List.countP_eq_zero.mpr fun other hother => by
      simpa using (h.2.1.1 other hother).asymm
  have hself : ¬ Before rank row row := fun hself => hself.asymm hself
  rw [hpre, hpost, if_neg (by simpa using hself)]
  rfl

theorem mem_page {order : List Row} {row : Row} (h : order.Pairwise (Before rank))
    (hmem : row ∈ order) {a n : Nat}
    (ha : a ≤ order.countP fun other => Before rank other row)
    (hn : (order.countP fun other => Before rank other row) < a + n) :
    row ∈ (order.drop a).take n := by
  obtain ⟨pre, post, horder⟩ := List.append_of_mem hmem
  rw [countP_before h horder] at ha hn
  refine List.mem_iff_getElem?.mpr ⟨pre.length - a, ?_⟩
  rw [List.getElem?_take_of_lt (by omega), List.getElem?_drop,
    show a + (pre.length - a) = pre.length by omega, horder]
  simp

/-! ## Rows that are due -/

/-- The rows that a poll selects before a row. -/
def below (config : Config) (rank : Nat → Nat) (s : State) (poll : Poll) (row : Row) : Nat :=
  s.rows.countP fun other => config.selects poll.mark s.clock other && Before rank other row

/-- The rows with a time before a mark, less the offset, are done. -/
def Settled (config : Config) (start mark : Nat) (s : State) : Prop :=
  ∀ row ∈ s.rows, row.channel ∈ config.channels → start ≤ row.eventAt + config.pollOffset →
    row.eventAt + config.pollOffset < mark → Done config s row

/-- What holds in and between polls. -/
structure Base (config : Config) (start : Nat) (s : State) : Prop where
  queried_le : s.queried ≤ s.clock
  currentAt_le : s.currentAt ≤ s.queried
  completed_le : ∀ time ∈ s.completed, time ≤ s.queried
  marks : ∀ id, (s.marks id).isSome → id ∈ s.handed.map fun entry => entry.1.id
  delivered : Delivered config start s

/-- A poll has settled what was before its mark; the rows that were due at
its first page are done, on the current page, or on later ones. -/
structure Scanning (config : Config) (rank : Nat → Nat) (start : Nat) (s : State) (poll : Poll) :
    Prop where
  mark_le : poll.mark ≤ s.queried
  settled : Settled config start poll.mark s
  first : poll.time = none → poll.mark = s.currentAt ∧ poll.page = 0 ∧ poll.todo = []
  page_pos : ∀ time, poll.time = some time → poll.page ≠ 0
  later : ∀ time, poll.time = some time → s.currentAt = time ∧ ∀ row ∈ s.rows,
    row.channel ∈ config.channels → poll.mark ≤ row.eventAt + config.pollOffset →
      row.eventAt + config.pollOffset ≤ time →
      Done config s row ∨ row ∈ poll.todo
        ∨ poll.lastPage = false ∧ poll.page * pageSize ≤ below config rank s poll row

def Inv (config : Config) (rank : Nat → Nat) (start : Nat) (s : State) : Prop :=
  Base config start s ∧
    match s.poll with
    | none => Settled config start s.currentAt s
    | some poll => Scanning config rank start s poll

theorem inv_giveUp (hbase : Base config start s)
    (hsettled : Settled config start s.currentAt s) :
    Inv config rank start (giveUp s) :=
  ⟨⟨hbase.queried_le, hbase.currentAt_le, hbase.completed_le, hbase.marks, hbase.delivered⟩,
    hsettled⟩

theorem inv_finish (hbase : Base config start s) {time : Nat} (htime : time ≤ s.queried)
    (hcurrent : Settled config start s.currentAt s)
    (hdue : ∀ row ∈ s.rows, row.channel ∈ config.channels →
      start ≤ row.eventAt + config.pollOffset → row.eventAt + config.pollOffset ≤ time →
      Done config s row) :
    Inv config rank start (finish s time) := by
  refine ⟨⟨hbase.queried_le, hbase.currentAt_le, ?_, hbase.marks, ?_⟩, hcurrent⟩
  · intro other hother
    rcases List.mem_cons.mp hother with rfl | hother
    · exact htime
    · exact hbase.completed_le other hother
  · intro other hother
    rcases List.mem_cons.mp hother with rfl | hother
    · exact hdue
    · exact hbase.delivered other hother

theorem Scanning.due (h : Scanning config rank start s poll) {time : Nat}
    (htime : poll.time = some time) (hlast : poll.lastPage = true) (htodo : poll.todo = []) :
    ∀ row ∈ s.rows, row.channel ∈ config.channels →
      start ≤ row.eventAt + config.pollOffset → row.eventAt + config.pollOffset ≤ time →
      Done config s row := by
  intro row hrow hchannel hstart hdue
  rcases Nat.lt_or_ge (row.eventAt + config.pollOffset) poll.mark with hlt | hge
  · exact h.settled row hrow hchannel hstart hlt
  · rcases (h.later time htime).2 row hrow hchannel hge hdue with hdone | hmem | hmore
    · exact hdone
    · rw [htodo] at hmem
      cases hmem
    · rw [hlast] at hmore
      cases hmore.1

theorem inv_advance (hbase : Base config start s) (h : Scanning config rank start s poll)
    {time : Nat} (htime : poll.time = some time) :
    Inv config rank start (advance s poll) := by
  unfold advance
  split
  · rename_i hdone htodo hlast hsome
    cases htime.symm.trans hsome
    have hcurrent := (h.later time htime).1
    have hdue := h.due htime hlast htodo
    refine inv_finish hbase (by rw [← hcurrent]; exact hbase.currentAt_le) ?_ hdue
    intro row hrow hchannel hstart hlt
    exact hdue row hrow hchannel hstart (by omega)
  · exact ⟨⟨hbase.queried_le, hbase.currentAt_le, hbase.completed_le, hbase.marks,
      hbase.delivered⟩, ⟨h.mark_le, h.settled, h.first, h.page_pos, h.later⟩⟩

/-! ## One step -/

theorem done_of_handed {s' : State} (hhanded : s'.handed = s.handed) {row : Row}
    (h : Done config s row) : Done config s' row := by
  unfold Done at h ⊢
  rw [hhanded]
  exact h

theorem mem_of_due {s' : State} {more : List Row} (hrows : s'.rows = s.rows ++ more)
    (hmore : ∀ row ∈ more, s.queried < row.eventAt + config.pollOffset) :
    ∀ row ∈ s'.rows, row.eventAt + config.pollOffset ≤ s.queried → row ∈ s.rows := by
  intro row hrow hle
  rw [hrows] at hrow
  rcases List.mem_append.mp hrow with hrow | hrow
  · exact hrow
  · have hnew := hmore row hrow
    omega

theorem Settled.mono {s' : State} {mark : Nat} (h : Settled config start mark s)
    (hrows : s'.rows = s.rows) (hdone : ∀ row, Done config s row → Done config s' row) :
    Settled config start mark s' := by
  intro row hrow hchannel hstart hlt
  rw [hrows] at hrow
  exact hdone row (h row hrow hchannel hstart hlt)

theorem scanning_process {s' : State} {row : Row} {rest : List Row}
    (h : Scanning config rank start s poll) (htodo : poll.todo = row :: rest)
    (hrows : s'.rows = s.rows) (hclock : s'.clock = s.clock) (hqueried : s'.queried = s.queried)
    (hcurrent : s'.currentAt = s.currentAt)
    (hdone : ∀ other, Done config s other → Done config s' other) (hrow : Done config s' row) :
    Scanning config rank start s' { poll with todo := rest } := by
  refine ⟨by rw [hqueried]; exact h.mark_le, h.settled.mono hrows hdone, ?_, h.page_pos, ?_⟩
  · intro hnone
    rw [(h.first hnone).2.2] at htodo
    cases htodo
  · intro time htime
    obtain ⟨hat, hdue⟩ := h.later time htime
    refine ⟨by rw [hcurrent]; exact hat, fun other hother hchannel hmark hle => ?_⟩
    rw [hrows] at hother
    rcases hdue other hother hchannel hmark hle with hold | hmem | ⟨hlast, hbelow⟩
    · exact .inl (hdone other hold)
    · rw [htodo] at hmem
      rcases List.mem_cons.mp hmem with rfl | hmem
      · exact .inl hrow
      · exact .inr (.inl hmem)
    · refine .inr (.inr ⟨hlast, ?_⟩)
      unfold below at hbelow ⊢
      rw [hrows, hclock]
      exact hbelow

theorem inv_processEvent (hbase : Base config start s) (h : Scanning config rank start s poll)
    {row : Row} {rest : List Row} (htodo : poll.todo = row :: rest) {time : Nat}
    (htime : poll.time = some time) :
    Inv config rank start (processEvent config s poll row rest true true) := by
  unfold processEvent
  simp only [Bool.not_true, Bool.false_eq_true, if_false]
  split
  · rename_i hown
    exact inv_advance hbase (scanning_process h htodo rfl rfl rfl rfl (fun _ hdone => hdone)
      (.inl hown)) htime
  · split
    · rename_i hmarked
      have hsome : (s.marks row.id).isSome := by
        cases hmark : s.marks row.id with
        | none =>
          rw [hmark] at hmarked
          cases hmarked
        | some expires => rfl
      exact inv_advance hbase (scanning_process h htodo rfl rfl rfl rfl (fun _ hdone => hdone)
        (.inr (hbase.marks row.id hsome))) htime
    · have hgrow : ∀ other, Done config s other → Done config
          { s with
            marks := fun id =>
              if id = row.id then some (s.clock + config.eventTtlShm) else s.marks id
            handed := s.handed ++ [(row, (row.nbf.getD 0) - s.clock)] } other := by
        rintro other (hown | hmem)
        · exact .inl hown
        · refine .inr ?_
          rw [List.map_append]
          exact List.mem_append_left _ hmem
      refine inv_advance ?_ (scanning_process h htodo rfl rfl rfl rfl hgrow ?_) htime
      · refine ⟨hbase.queried_le, hbase.currentAt_le, hbase.completed_le, ?_, ?_⟩
        · intro id hid
          simp only [List.map_append, List.map_cons, List.map_nil, List.mem_append,
            List.mem_singleton]
          by_cases heq : id = row.id
          · exact .inr heq
          · simp only [if_neg heq] at hid
            exact .inl (hbase.marks id hid)
        · intro other hother row' hrow' hchannel hstart hle
          exact hgrow row' (hbase.delivered other hother row' hrow' hchannel hstart hle)
      · exact .inr (by simp)

theorem countP_listing {order : List Row} (horder : Listing config s poll order) (row : Row) :
    order.countP (fun other => Before rank other row) = below config rank s poll row := by
  rw [horder.1.countP_eq, List.countP_filter]
  unfold below
  exact congrFun (congrArg List.countP (funext fun other => Bool.and_comm _ _)) s.rows

theorem mem_listing {order : List Row} (horder : Listing config s poll order) {row : Row} :
    row ∈ order ↔ row ∈ s.rows ∧ row.channel ∈ config.channels
      ∧ poll.mark ≤ row.eventAt + config.pollOffset ∧ row.eventAt ≤ s.clock := by
  rw [horder.1.mem_iff, List.mem_filter]
  simp only [Config.selects, decide_eq_true_eq, Nat.lt_succ_iff]

/-- A row that is due and not on an earlier page is on this page or on a later
one. -/
theorem due_of_query {order : List Row} (horder : Listing config s poll order)
    (hsorted : order.Pairwise (Before rank)) {row : Row} (hmem : row ∈ order)
    (hbelow : poll.page * pageSize ≤ below config rank s poll row) :
    row ∈ (order.drop (poll.page * pageSize)).take pageSize
      ∨ ((order.drop (poll.page * pageSize)).take pageSize).length = pageSize
        ∧ (poll.page + 1) * pageSize ≤ below config rank s poll row := by
  rw [← countP_listing horder] at hbelow ⊢
  rcases Nat.lt_or_ge (order.countP fun other => Before rank other row)
    (poll.page * pageSize + pageSize) with hlt | hge
  · exact .inl (mem_page hsorted hmem hbelow hlt)
  · refine .inr ⟨?_, by rw [Nat.add_mul, Nat.one_mul]; exact hge⟩
    have hlen : (order.countP fun other => Before rank other row) ≤ order.length :=
      List.countP_le_length
    rw [List.length_take, List.length_drop]
    omega

/-- After the query of a page, a row that was due at the first page is done,
on this page or on a later one. -/
theorem due_after_query (hbase : Base config start s) (h : Scanning config rank start s poll)
    (htodo : poll.todo = []) {order : List Row} (horder : Listing config s poll order)
    (hsorted : order.Pairwise (Before rank)) {row : Row} (hrow : row ∈ s.rows)
    (hchannel : row.channel ∈ config.channels)
    (hmark : poll.mark ≤ row.eventAt + config.pollOffset)
    (hdue : row.eventAt + config.pollOffset ≤ poll.time.getD s.clock) :
    Done config s row ∨ row ∈ (order.drop (poll.page * pageSize)).take pageSize
      ∨ ((order.drop (poll.page * pageSize)).take pageSize).length = pageSize
        ∧ (poll.page + 1) * pageSize ≤ below config rank s poll row := by
  have hqueried := hbase.queried_le
  have hcurrent := hbase.currentAt_le
  cases htime : poll.time with
  | none =>
    rw [htime, Option.getD_none] at hdue
    have hmem : row ∈ order :=
      (mem_listing horder).mpr ⟨hrow, hchannel, hmark, by omega⟩
    refine .inr (due_of_query horder hsorted hmem ?_)
    rw [(h.first htime).2.1, Nat.zero_mul]
    exact Nat.zero_le _
  | some time =>
    rw [htime, Option.getD_some] at hdue
    obtain ⟨hat, hlater⟩ := h.later time htime
    have hmem : row ∈ order :=
      (mem_listing horder).mpr ⟨hrow, hchannel, hmark, by omega⟩
    rcases hlater row hrow hchannel hmark hdue with hdone | hold | ⟨-, hbelow⟩
    · exact .inl hdone
    · rw [htodo] at hold
      cases hold
    · exact .inr (due_of_query horder hsorted hmem hbelow)

theorem time_le (hbase : Base config start s) (h : Scanning config rank start s poll) :
    poll.time.getD s.clock ≤ s.clock := by
  cases htime : poll.time with
  | none => exact Nat.le_refl _
  | some time =>
    have hat := (h.later time htime).1
    have hcurrent := hbase.currentAt_le
    have hqueried := hbase.queried_le
    rw [Option.getD_some]
    omega

theorem scanning_query {s' : State} (hbase : Base config start s)
    (h : Scanning config rank start s poll) (htodo : poll.todo = []) {order : List Row}
    (horder : Listing config s poll order) (hsorted : order.Pairwise (Before rank))
    (hrows : s'.rows = s.rows) (hclock : s'.clock = s.clock) (hqueried : s'.queried = s.clock)
    (hhanded : s'.handed = s.handed) (hcurrent : s'.currentAt = poll.time.getD s.clock) :
    Scanning config rank start s'
      { poll with
        time := some (poll.time.getD s.clock)
        page := poll.page + 1
        lastPage := ((order.drop (poll.page * pageSize)).take pageSize).length < pageSize
        todo := (order.drop (poll.page * pageSize)).take pageSize } := by
  have hdone : ∀ row, Done config s row → Done config s' row :=
    fun _ hrow => done_of_handed hhanded hrow
  refine ⟨?_, h.settled.mono hrows hdone, fun hnone => (nomatch hnone),
    fun _ _ => Nat.succ_ne_zero _, ?_⟩
  · rw [hqueried]
    exact Nat.le_trans h.mark_le hbase.queried_le
  · rintro time ⟨rfl⟩
    refine ⟨hcurrent, fun row hrow hchannel hmark hle => ?_⟩
    rw [hrows] at hrow
    rcases due_after_query hbase h htodo horder hsorted hrow hchannel hmark hle with
      hrow' | hmem | ⟨hlen, hbelow⟩
    · exact .inl (hdone row hrow')
    · exact .inr (.inl hmem)
    · refine .inr (.inr ⟨by simp only [hlen]; decide, ?_⟩)
      unfold below at hbelow ⊢
      rw [hrows, hclock]
      exact hbelow

theorem Scanning.time_eq_none (h : Scanning config rank start s poll) (hpage : poll.page = 0) :
    poll.time = none := by
  cases hsome : poll.time with
  | none => rfl
  | some time => exact absurd hpage (h.page_pos time hsome)

theorem due_of_empty (hbase : Base config start s) (h : Scanning config rank start s poll)
    (htodo : poll.todo = []) {order : List Row} (horder : Listing config s poll order)
    (hsorted : order.Pairwise (Before rank))
    (hempty : (order.drop (poll.page * pageSize)).take pageSize = []) :
    ∀ row ∈ s.rows, row.channel ∈ config.channels →
      start ≤ row.eventAt + config.pollOffset →
      row.eventAt + config.pollOffset ≤ poll.time.getD s.clock → Done config s row := by
  intro row hrow hchannel hstart hle
  rcases Nat.lt_or_ge (row.eventAt + config.pollOffset) poll.mark with hlt | hge
  · exact h.settled row hrow hchannel hstart hlt
  · rcases due_after_query hbase h htodo horder hsorted hrow hchannel hge hle with
      hdone | hmem | ⟨hlen, -⟩
    · exact hdone
    · rw [hempty] at hmem
      cases hmem
    · rw [hempty] at hlen
      cases hlen

/-- What was due by the time of the poll covers what is before the mark. -/
theorem Scanning.settled_current (h : Scanning config rank start s poll)
    (hdue : ∀ row ∈ s.rows, row.channel ∈ config.channels →
      start ≤ row.eventAt + config.pollOffset →
      row.eventAt + config.pollOffset ≤ poll.time.getD s.clock → Done config s row) :
    Settled config start s.currentAt s := by
  cases hsome : poll.time with
  | none =>
    rw [← (h.first hsome).1]
    exact h.settled
  | some time =>
    have hat := (h.later time hsome).1
    intro row hrow hchannel hstart hlt
    refine hdue row hrow hchannel hstart ?_
    rw [hsome, Option.getD_some]
    omega

theorem inv_query (hbase : Base config start s) (h : Scanning config rank start s poll)
    (htodo : poll.todo = []) {order : List Row} (horder : Listing config s poll order)
    (hsorted : order.Pairwise (Before rank)) (setOk : Bool) :
    Inv config rank start (query s poll order true setOk) := by
  have hqueried := hbase.queried_le
  have hcurrent := hbase.currentAt_le
  have hmark_le := h.mark_le
  have htime := time_le hbase h
  have hbase' : ∀ last, Base config start { s with queried := s.clock, lastPoll := last } :=
    fun _ => ⟨Nat.le_refl _, Nat.le_trans hcurrent hqueried,
      fun time hmem => Nat.le_trans (hbase.completed_le time hmem) hqueried, hbase.marks,
      hbase.delivered⟩
  unfold query
  simp only [Bool.not_true, Bool.false_eq_true, if_false]
  split
  · rename_i hempty
    have hall := due_of_empty hbase h htodo horder hsorted hempty
    have hsettled := h.settled_current hall
    split
    · exact inv_finish (hbase' s.clock) htime hsettled hall
    · exact inv_finish (hbase' s.lastPoll) htime hsettled hall
  · split
    · -- the time is not stored: the poll has not begun
      rename_i hfirst
      have hnone := h.time_eq_none hfirst.1
      have hsettled := h.settled
      rw [(h.first hnone).1] at hsettled
      exact inv_giveUp (hbase' s.lastPoll) hsettled
    · split
      · rename_i hfirst
        have hnone := h.time_eq_none hfirst
        refine inv_advance ?_ (scanning_query hbase h htodo horder hsorted rfl rfl rfl rfl ?_) rfl
        · exact ⟨Nat.le_refl _, Nat.le_refl _, (hbase' 0).completed_le, hbase.marks,
            hbase.delivered⟩
        · rw [hnone]
          rfl
      · rename_i hlater
        refine inv_advance (hbase' s.lastPoll)
          (scanning_query hbase h htodo horder hsorted rfl rfl rfl rfl ?_) rfl
        cases hsome : poll.time with
        | none => exact absurd (h.first hsome).2.1 hlater
        | some time => exact (h.later time hsome).1

theorem scanning_mono {s' : State} (h : Scanning config rank start s poll) {more : List Row}
    (hrows : s'.rows = s.rows ++ more)
    (hmore : ∀ row ∈ more, s.queried < row.eventAt + config.pollOffset)
    (hcurrent_le : s.currentAt ≤ s.queried)
    (hclock : s.clock ≤ s'.clock) (hqueried : s'.queried = s.queried)
    (hcurrent : s'.currentAt = s.currentAt) (hhanded : s'.handed = s.handed) :
    Scanning config rank start s' poll := by
  have hdone : ∀ row, Done config s row → Done config s' row :=
    fun _ hrow => done_of_handed hhanded hrow
  have hmark_le := h.mark_le
  have hold := mem_of_due hrows hmore
  refine ⟨by rw [hqueried]; exact hmark_le, ?_, ?_, h.page_pos, ?_⟩
  · intro row hrow hchannel hstart hlt
    exact hdone row (h.settled row (hold row hrow (by omega)) hchannel hstart hlt)
  · rw [hcurrent]
    exact h.first
  · intro time htime
    obtain ⟨hat, hlater⟩ := h.later time htime
    refine ⟨hcurrent.trans hat, fun row hrow hchannel hmark hle => ?_⟩
    rcases hlater row (hold row hrow (by omega)) hchannel hmark hle with
      hrow' | hmem | ⟨hlast, hbelow⟩
    · exact .inl (hdone row hrow')
    · exact .inr (.inl hmem)
    · refine .inr (.inr ⟨hlast, Nat.le_trans hbelow ?_⟩)
      unfold below
      rw [hrows, List.countP_append]
      refine Nat.le_trans (List.countP_mono_left fun other _ hother => ?_) (Nat.le_add_right _ _)
      simp only [Config.selects, Bool.and_eq_true, decide_eq_true_eq] at hother ⊢
      exact ⟨⟨hother.1.1, hother.1.2.1, Nat.le_trans hother.1.2.2 hclock⟩, hother.2⟩

theorem inv_mono {s' : State} (h : Inv config rank start s) {more : List Row}
    (hrows : s'.rows = s.rows ++ more)
    (hmore : ∀ row ∈ more, s.queried < row.eventAt + config.pollOffset)
    (hclock : s.clock ≤ s'.clock) (hqueried : s'.queried = s.queried)
    (hcurrent : s'.currentAt = s.currentAt) (hhanded : s'.handed = s.handed)
    (hmarks : s'.marks = s.marks) (hcompleted : s'.completed = s.completed)
    (hpoll : s'.poll = s.poll) : Inv config rank start s' := by
  obtain ⟨hbase, hrest⟩ := h
  have hcurrent_le := hbase.currentAt_le
  have hdone : ∀ row, Done config s row → Done config s' row :=
    fun _ hrow => done_of_handed hhanded hrow
  have hold := mem_of_due hrows hmore
  constructor
  · refine ⟨?_, ?_, ?_, ?_, ?_⟩
    · rw [hqueried]
      exact Nat.le_trans hbase.queried_le hclock
    · rw [hcurrent, hqueried]
      exact hcurrent_le
    · rw [hcompleted, hqueried]
      exact hbase.completed_le
    · rw [hmarks, hhanded]
      exact hbase.marks
    · intro time htime row hrow hchannel hstart hle
      rw [hcompleted] at htime
      have htime_le := hbase.completed_le time htime
      exact hdone row (hbase.delivered time htime row (hold row hrow (by omega)) hchannel hstart
        hle)
  · rw [hpoll]
    cases hsome : s.poll with
    | none =>
      rw [hsome] at hrest
      intro row hrow hchannel hstart hlt
      rw [hcurrent] at hlt
      exact hdone row (hrest row (hold row hrow (by omega)) hchannel hstart hlt)
    | some poll =>
      rw [hsome] at hrest
      exact scanning_mono hrest hrows hmore hcurrent_le hclock hqueried hcurrent hhanded

theorem inv_step (h : Inv config rank start s) {event : Event} (hguard : Reliable rank s event) :
    Inv config rank start (step config s event) := by
  cases event with
  | insert row =>
    unfold step
    simp only
    split
    · rename_i hinsert
      refine inv_mono h rfl (fun other hother => ?_) (Nat.le_refl _) rfl rfl rfl rfl rfl rfl
      rw [List.mem_singleton.mp hother]
      exact hinsert.2.1
    · exact h
  | tick now =>
    unfold step
    simp only
    split
    · rename_i hle
      exact inv_mono h (List.append_nil _).symm (fun _ hother => (nomatch hother)) hle rfl rfl rfl
        rfl rfl rfl
    · exact h
  | poll getOk =>
    unfold step
    simp only
    split
    · rename_i hnone
      split
      · obtain ⟨hbase, hsettled⟩ := h
        rw [hnone] at hsettled
        exact ⟨⟨hbase.queried_le, hbase.currentAt_le, hbase.completed_le, hbase.marks,
          hbase.delivered⟩, ⟨hbase.currentAt_le, hsettled, fun _ => ⟨rfl, rfl, rfl⟩,
            fun _ htime => (nomatch htime), fun _ htime => (nomatch htime)⟩⟩
      · exact h
    · exact h
  | query order queryOk setOk =>
    unfold step
    simp only
    split
    · rename_i poll hsome
      split
      · rename_i hpossible
        obtain ⟨hbase, hscan⟩ := h
        rw [hsome] at hscan
        obtain ⟨rfl, hsorted⟩ := hguard (by rw [hsome]; rfl)
        exact inv_query hbase hscan hpossible.1 hpossible.2 hsorted setOk
      · exact h
    · exact h
  | process getOk setOk =>
    unfold step
    simp only
    split
    · rename_i poll hsome
      split
      · rename_i row rest htodo
        obtain ⟨hbase, hscan⟩ := h
        rw [hsome] at hscan
        obtain ⟨rfl, rfl⟩ := hguard (by rw [hsome]; rfl)
        cases htime : poll.time with
        | none =>
          rw [(hscan.first htime).2.2] at htodo
          cases htodo
        | some time => exact inv_processEvent hbase hscan htodo htime
      · exact h
    · exact h

theorem inv_init (rows : List Row) : Inv config rank start (init start rows) := by
  refine ⟨⟨Nat.le_refl _, Nat.le_refl _, fun _ htime => (nomatch htime),
    fun _ hsome => (nomatch hsome), fun _ htime => (nomatch htime)⟩, ?_⟩
  intro row hrow hchannel hstart hlt
  exact absurd hstart (Nat.not_le.mpr hlt)

theorem delivered_of_reliable {rows : List Row} {events : List Event}
    (h : Run.Guarded (step config) (Reliable rank) (init start rows) events) :
    Delivered config start (Run.exec (step config) (init start rows) events) := by
  have hstep : ∀ s event, Inv config rank start s → Reliable rank s event →
      Inv config rank start (step config s event) := fun _ _ hs hguard => inv_step hs hguard
  exact (h.invariant hstep (inv_init rows)).1.delivered

end KongGateway.Kong.ClusterEvents
