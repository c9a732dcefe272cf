import KongGateway.Kong.Tools.Queue

/-!
# Delivery — every entry leaves once, in order

What an `enqueue` does to the queue is a number of entries dropped from
its front and possibly one put at its back (`enqueue_spec`). The
invariant `Delivered` ties the history, the indices and the semaphore
together; each step keeps it.
-/

namespace KongGateway.Kong.Tools

/-! ## What an `enqueue` does to the queue -/

/-- The entries were taken off the front, each with its resource. -/
structure Dropped (q q' : Queue) (entries : List String) : Prop where
  content : q.table.content = entries ++ q'.table.content
  resources : q.resources = q'.resources + entries.length

theorem Dropped.refl (q : Queue) : Dropped q q [] := ⟨rfl, rfl⟩

theorem Dropped.trans {q q' q'' : Queue} {entries entries' : List String}
    (h : Dropped q q' entries) (h' : Dropped q' q'' entries') :
    Dropped q q'' (entries ++ entries') where
  content := by rw [h.content, h'.content, List.append_assoc]
  resources := by
    rw [h.resources, h'.resources, List.length_append]
    omega

theorem Dropped.count {q q' : Queue} {entries : List String} (h : Dropped q q' entries) :
    q.count = entries.length + q'.count := by
  have hlen := congrArg List.length h.content
  rw [List.length_append, TableQueue.length_content, TableQueue.length_content] at hlen
  exact hlen

theorem Dropped.resources_le {q q' : Queue} {entries : List String} (h : Dropped q q' entries)
    (hle : q.resources ≤ q.count) : q'.resources ≤ q'.count := by
  have := h.count
  have := h.resources
  omega

section Enqueue

variable {conf : QueueConf} {waiters : Nat} {q q' : Queue} {entry : String}

theorem dropOldestEntry_spec (hle : q.resources ≤ q.count) {oldest : String}
    (h : dropOldestEntry conf waiters q = .ok (q', oldest)) : Dropped q q' [oldest] := by
  rw [dropOldestEntry] at h
  split at h
  · rename_i hcount
    rw [semaphoreCount] at hcount
    obtain ⟨a, hhead, hcontent⟩ := q.table.content_eq_cons (by unfold Queue.count at hle; omega)
    obtain ⟨rfl, rfl⟩ := Prod.mk.inj (Except.ok.inj h)
    constructor
    · rw [hhead]
      exact hcontent
    · show q.resources = q.resources - 1 + 1
      omega
  · cases h

theorem dropUntilFits_spec {fuel : Nat} {dropped dropped' : List String}
    (hle : q.resources ≤ q.count)
    (h : dropUntilFits conf waiters entry fuel q dropped = .ok (q', dropped')) :
    ∃ entries, dropped' = dropped ++ entries ∧ Dropped q q' entries := by
  induction fuel generalizing q dropped with
  | zero => cases h
  | succ fuel ih =>
    rw [dropUntilFits] at h
    cases hdrop : dropOldestEntry conf waiters q with
    | error err => simp [hdrop, bind, Except.bind] at h
    | ok result =>
      obtain ⟨q₁, oldest⟩ := result
      have hstep := dropOldestEntry_spec hle hdrop
      cases hexceeds : willExceedMaxBytes conf q₁ entry with
      | error err => simp [hdrop, hexceeds, bind, Except.bind] at h
      | ok exceeds =>
        cases exceeds with
        | false =>
          simp only [hdrop, hexceeds, bind, Except.bind, pure, Except.pure] at h
          obtain ⟨rfl, rfl⟩ := Prod.mk.inj (Except.ok.inj h)
          exact ⟨[oldest], rfl, hstep⟩
        | true =>
          simp only [hdrop, hexceeds, bind, Except.bind] at h
          obtain ⟨entries, rfl, hrest⟩ := ih (hstep.resources_le hle) h
          exact ⟨oldest :: entries, by simp, hstep.trans hrest⟩

theorem makeRoom_spec (hle : q.resources ≤ q.count) {dropped : List String}
    (h : makeRoom conf waiters q = .ok (q', dropped)) : Dropped q q' dropped := by
  rw [makeRoom] at h
  cases hfull : isReachingMaxEntries conf q with
  | error err => simp [hfull, bind, Except.bind] at h
  | ok full =>
    cases full with
    | false =>
      simp only [hfull, bind, Except.bind, pure, Except.pure] at h
      obtain ⟨rfl, rfl⟩ := Prod.mk.inj (Except.ok.inj h)
      exact .refl q
    | true =>
      cases hdrop : dropOldestEntry conf waiters q with
      | error err => simp [hfull, hdrop, bind, Except.bind] at h
      | ok result =>
        simp only [hfull, hdrop, bind, Except.bind, pure, Except.pure] at h
        obtain ⟨rfl, rfl⟩ := Prod.mk.inj (Except.ok.inj h)
        exact dropOldestEntry_spec hle hdrop

theorem makeByteRoom_spec (hle : q.resources ≤ q.count) {dropped dropped' : List String}
    (h : makeByteRoom conf waiters entry q dropped = .ok (q', dropped')) :
    ∃ entries, dropped' = dropped ++ entries ∧ Dropped q q' entries := by
  rw [makeByteRoom] at h
  cases hexceeds : willExceedMaxBytes conf q entry with
  | error err => simp [hexceeds, bind, Except.bind] at h
  | ok exceeds =>
    cases exceeds with
    | false =>
      simp only [hexceeds, bind, Except.bind, pure, Except.pure] at h
      obtain ⟨rfl, rfl⟩ := Prod.mk.inj (Except.ok.inj h)
      exact ⟨[], by simp, .refl q⟩
    | true =>
      simp only [hexceeds, bind, Except.bind] at h
      exact dropUntilFits_spec hle h

/-- An `enqueue` that does not raise drops entries from the front and
then takes its own, or rejects it. -/
theorem enqueue_spec (hle : q.resources ≤ q.count) {done : Enqueued}
    (h : enqueue conf waiters q entry = .ok done) :
    ∃ rest, Dropped q rest done.dropped
      ∧ (done.result = .ok () ∧ done.queue = appendEntry conf entry rest
        ∨ (∃ err, done.result = .error err) ∧ done.queue = rest) := by
  rw [enqueue] at h
  cases hroom : makeRoom conf waiters q with
  | error err => simp [hroom, bind, Except.bind] at h
  | ok result =>
  obtain ⟨q₁, dropped₁⟩ := result
  have hdropped := makeRoom_spec hle hroom
  cases hlarge : isEntryTooLarge conf entry with
  | true =>
    simp only [hroom, hlarge, bind, Except.bind, pure, Except.pure, if_true] at h
    obtain rfl := Except.ok.inj h
    exact ⟨q₁, hdropped, .inr ⟨⟨_, rfl⟩, rfl⟩⟩
  | false =>
  cases hbytes : makeByteRoom conf waiters entry q₁ dropped₁ with
  | error err => simp [hroom, hlarge, hbytes, bind, Except.bind] at h
  | ok result =>
  obtain ⟨q₂, dropped₂⟩ := result
  obtain ⟨entries, rfl, hdropped₂⟩ := makeByteRoom_spec (hdropped.resources_le hle) hbytes
  cases hcan : canEnqueue conf q₂ entry with
  | error err => simp [hroom, hlarge, hbytes, hcan, bind, Except.bind] at h
  | ok can =>
    cases can with
    | false => simp [hroom, hlarge, hbytes, hcan, bind, Except.bind] at h
    | true =>
      simp only [hroom, hlarge, hbytes, hcan, bind, Except.bind, pure, Except.pure] at h
      obtain rfl := Except.ok.inj h
      exact ⟨q₂, hdropped.trans hdropped₂, .inl ⟨rfl, rfl⟩⟩

end Enqueue

/-! ## What a batch does to the queue -/

theorem deleteEntries_content (conf : QueueConf) {n : Nat} {q : Queue} (hn : n ≤ q.count) :
    (deleteEntries conf n q).table.content = q.table.content.drop n := by
  induction n generalizing q with
  | zero => rfl
  | succ n ih =>
    have hpos : 0 < q.table.count := Nat.lt_of_lt_of_le (Nat.succ_pos n) hn
    have hcount : (deleteFrontmostEntry conf q).count = q.count - 1 := q.table.count_pop hpos
    have hcontent : (deleteFrontmostEntry conf q).table.content = q.table.content.tail :=
      q.table.content_pop hpos
    rw [deleteEntries, ih (by omega), hcontent, List.drop_tail]

@[simp] theorem deleteEntries_resources (conf : QueueConf) (n : Nat) (q : Queue) :
    (deleteEntries conf n q).resources = q.resources := by
  induction n generalizing q with
  | zero => rfl
  | succ n ih =>
    rw [deleteEntries, ih]
    rfl

theorem deleteEntries_count (conf : QueueConf) {n : Nat} {q : Queue} (hn : n ≤ q.count) :
    (deleteEntries conf n q).count = q.count - n := by
  rw [Queue.count, ← TableQueue.length_content, deleteEntries_content conf hn, List.length_drop,
    TableQueue.length_content]
  rfl

/-! ## The invariant -/

/-- How many entries the running `process_once` may have counted. -/
def Consumer.CountsWithin (conf : QueueConf) : Consumer → Prop
  | .coalescing entryCount => 1 ≤ entryCount ∧ entryCount ≤ conf.maxBatchSize
  | .waiting entryCount => 1 ≤ entryCount ∧ entryCount < conf.maxBatchSize
  | _ => True

/-- The history accounts for every entry: what was accepted is what
left, in the order it left, followed by what is queued. -/
structure Delivered (conf : QueueConf) (s : System) : Prop where
  order : s.accepted = s.departures.flatMap Departure.entries ++ s.queue.table.content
  batches : ∀ entries, .batch entries ∈ s.departures →
    1 ≤ entries.length ∧ entries.length ≤ conf.maxBatchSize
  count : s.queue.count = s.queue.resources + s.consumer.taken
  taken : s.consumer.CountsWithin conf
  ended : s.consumer = .ended → s.queue.count = 0

variable {conf : QueueConf} {s : System}

theorem delivered_start (conf : QueueConf) : Delivered conf .start where
  order := rfl
  batches := fun _ h => absurd h List.not_mem_nil
  count := rfl
  taken := trivial
  ended := fun _ => rfl

/-- The queue an `enqueue` works on stands for the one before. -/
theorem Delivered.getOrCreateQueue (h : Delivered conf s) :
    s.getOrCreateQueue.table.content = s.queue.table.content
      ∧ s.getOrCreateQueue.count = s.getOrCreateQueue.resources + s.consumer.taken := by
  rw [System.getOrCreateQueue]
  split
  · rename_i hended
    have hnil : s.queue.table.content = [] := by
      rw [List.eq_nil_iff_length_eq_zero, TableQueue.length_content]
      exact h.ended hended
    exact ⟨hnil.symm, by rw [hended]; rfl⟩
  · exact ⟨rfl, h.count⟩

theorem Delivered.enqueueStep (h : Delivered conf s) (entry : String)
    (hok : ∃ done, enqueue conf s.consumer.waiters s.getOrCreateQueue entry = .ok done) :
    Delivered conf (enqueueStep conf s entry) := by
  rw [Tools.enqueueStep]
  obtain ⟨hcontent, hcount⟩ := h.getOrCreateQueue
  have hle : s.getOrCreateQueue.resources ≤ s.getOrCreateQueue.count := by omega
  obtain ⟨done, hdone⟩ := hok
  rw [hdone]
  obtain ⟨rest, hdropped, hresult⟩ := enqueue_spec hle hdone
  have hdropcount := hdropped.count
  have hdropres := hdropped.resources
  have htaken : (if s.consumer = .ended then .looping else s.consumer : Consumer).taken
      = s.consumer.taken := by
    split
    · rename_i hended
      rw [hended]
      rfl
    · rfl
  have hhistory : (s.departures ++ done.dropped.map Departure.dropped).flatMap Departure.entries
      ++ rest.table.content = s.accepted := by
    have hflat : (done.dropped.map Departure.dropped).flatMap Departure.entries = done.dropped := by
      rw [List.flatMap_map]
      exact List.flatMap_singleton' done.dropped
    rw [List.flatMap_append, hflat, List.append_assoc, ← hdropped.content, hcontent, ← h.order]
  refine ⟨?_, ?_, ?_, ?_, ?_⟩
  · dsimp only
    rcases hresult with ⟨hok, hqueue⟩ | ⟨⟨err, herr⟩, hqueue⟩
    · rw [hok, hqueue, if_pos (by rfl), ← hhistory, List.append_assoc]
      exact congrArg _ (TableQueue.content_push _ _).symm
    · rw [herr, hqueue, if_neg (by simp [Except.isOk, Except.toBool]), hhistory]
  · intro entries hmem
    rcases List.mem_append.mp hmem with hold | hnew
    · exact h.batches entries hold
    · simp at hnew
  · dsimp only
    rw [htaken]
    rcases hresult with ⟨-, hqueue⟩ | ⟨-, hqueue⟩
    · have hpush : (appendEntry conf entry rest).count = rest.count + 1 :=
        TableQueue.count_push _ _
      rw [hqueue, hpush]
      show rest.count + 1 = rest.resources + 1 + s.consumer.taken
      omega
    · rw [hqueue]
      omega
  · dsimp only
    split
    · trivial
    · exact h.taken
  · dsimp only
    split
    · intro hcontra
      cases hcontra
    · intro hended
      contradiction

theorem Delivered.flushBatch (h : Delivered conf s) {entryCount : Nat}
    (htaken : s.consumer.taken = entryCount) (hpos : 1 ≤ entryCount)
    (hmax : entryCount ≤ conf.maxBatchSize) : Delivered conf (flushBatch conf entryCount s) := by
  have hcount := h.count
  have hle : entryCount ≤ s.queue.count := by omega
  have hbatch : TableQueue.slice s.queue.table.entries s.queue.table.front entryCount
      = s.queue.table.content.take entryCount := s.queue.table.take_content hle
  refine ⟨?_, ?_, ?_, trivial, fun hcontra => by cases hcontra⟩
  · show s.accepted = (s.departures ++ [Departure.batch _]).flatMap Departure.entries
      ++ (deleteEntries conf entryCount s.queue).table.content
    rw [hbatch, deleteEntries_content conf hle, List.flatMap_append, List.append_assoc,
      List.flatMap_singleton, Departure.entries, List.take_append_drop, ← h.order]
  · intro entries hmem
    rcases List.mem_append.mp hmem with hold | hnew
    · exact h.batches entries hold
    · rw [List.mem_singleton] at hnew
      obtain rfl := Departure.batch.inj hnew
      rw [hbatch, List.length_take, TableQueue.length_content]
      have : entryCount ≤ s.queue.table.count := hle
      omega
  · show (deleteEntries conf entryCount s.queue).count
      = (deleteEntries conf entryCount s.queue).resources + 0
    rw [deleteEntries_count conf hle, deleteEntries_resources]
    omega

theorem Delivered.take (h : Delivered conf s) (hres : s.queue.resources ≠ 0)
    (hmax : s.consumer.taken < conf.maxBatchSize) :
    Delivered conf { s with
      queue := { s.queue with resources := s.queue.resources - 1 }
      consumer := .coalescing (s.consumer.taken + 1) } where
  order := h.order
  batches := h.batches
  count := by
    have := h.count
    show s.queue.count = s.queue.resources - 1 + (s.consumer.taken + 1)
    omega
  taken := ⟨by omega, hmax⟩
  ended := fun hcontra => by cases hcontra

theorem Delivered.step (h : Delivered conf s) (input : Input)
    (hassert : AssertionsHold conf s input) : Delivered conf (step conf s input) := by
  cases input with
  | enqueue entry =>
    rw [Tools.step]
    split
    · rename_i hyields
      exact h.enqueueStep entry (hassert hyields)
    · exact h
  | loop =>
    rw [Tools.step]
    split
    · rename_i hlooping
      split
      · rename_i hempty
        have htaken := h.count
        rw [hlooping] at htaken
        exact ⟨h.order, h.batches, htaken, trivial, fun _ => hempty⟩
      · split
        · exact h
        · rename_i hres
          have htake := h.take hres (by rw [hlooping]; exact conf.maxBatchSize_pos)
          rwa [hlooping] at htake
    · exact h
  | wait =>
    rw [Tools.step]
    split
    · rename_i entryCount hcoalescing
      split
      · rename_i hmax
        have htaken := h.taken
        have hcount := h.count
        rw [hcoalescing] at htaken hcount
        split
        · exact ⟨h.order, h.batches, hcount, ⟨htaken.1, hmax⟩, fun hcontra => by cases hcontra⟩
        · rename_i hres
          have htake := h.take hres (by rw [hcoalescing]; exact hmax)
          rwa [hcoalescing] at htake
      · exact h
    · exact h
  | wake =>
    rw [Tools.step]
    split
    · rename_i entryCount hwaiting
      split
      · exact h
      · rename_i hres
        have htaken := h.taken
        rw [hwaiting] at htaken
        have htake := h.take hres (by rw [hwaiting]; exact htaken.2)
        rwa [hwaiting] at htake
    · exact h
  | timeout =>
    rw [Tools.step]
    split
    · rename_i entryCount hwaiting
      have htaken := h.taken
      have hcount := h.count
      rw [hwaiting] at htaken hcount
      exact ⟨h.order, h.batches, hcount, ⟨htaken.1, Nat.le_of_lt htaken.2⟩,
        fun hcontra => by cases hcontra⟩
    · exact h
  | waitError =>
    rw [Tools.step]
    split
    · rename_i entryCount hwaiting
      have htaken := h.taken
      rw [hwaiting] at htaken
      exact h.flushBatch (by rw [hwaiting]; rfl) htaken.1 (Nat.le_of_lt htaken.2)
    · exact h
  | flush =>
    rw [Tools.step]
    split
    · rename_i entryCount hcoalescing
      have htaken := h.taken
      rw [hcoalescing] at htaken
      exact h.flushBatch (by rw [hcoalescing]; rfl) htaken.1 htaken.2
    · exact h
  | handled =>
    rw [Tools.step]
    split
    · rename_i hhandling
      have hcount := h.count
      rw [hhandling] at hcount
      exact ⟨h.order, h.batches, hcount, trivial, fun hcontra => by cases hcontra⟩
    · exact h

/-- In every run without a failed assertion, what was accepted is what
left, in order, followed by what is queued: each entry was dropped as
the oldest one or handed over in one batch, or waits. Batches have at
least one and at most `max_batch_size` entries, the semaphore has a
resource for every entry not counted by the running `process_once`, and
nothing is left behind when the timer ends. -/
theorem queue_delivers_once_in_order (conf : QueueConf) (inputs : List Input)
    (hrun : Run.Guarded (step conf) (AssertionsHold conf) .start inputs) :
    let s := Run.exec (step conf) .start inputs
    s.accepted = s.departures.flatMap Departure.entries ++ s.queue.table.content
      ∧ (∀ entries, .batch entries ∈ s.departures →
        1 ≤ entries.length ∧ entries.length ≤ conf.maxBatchSize)
      ∧ s.queue.count = s.queue.resources + s.consumer.taken
      ∧ (s.consumer = .ended → s.accepted = s.departures.flatMap Departure.entries) := by
  have hinv : Delivered conf (Run.exec (step conf) .start inputs) :=
    hrun.invariant (fun s input h hassert => h.step input hassert) (delivered_start conf)
  refine ⟨hinv.order, hinv.batches, hinv.count, fun hended => ?_⟩
  have hnil : (Run.exec (step conf) .start inputs).queue.table.content = [] := by
    rw [List.eq_nil_iff_length_eq_zero, TableQueue.length_content]
    exact hinv.ended hended
  rw [hinv.order, hnil, List.append_nil]

def twoEntriesConf : QueueConf where
  maxBatchSize := 2
  maxEntries := 2
  maxBytes := none
  maxBatchSize_pos := by decide
  maxEntries_pos := by decide

/-- Of three entries the first is dropped, the others leave in a
batch. -/
theorem queue_delivers_batch_after_drop :
    let inputs : List Input := [.enqueue "a", .enqueue "b", .enqueue "c", .loop, .wait, .flush,
      .handled, .loop]
    let s := Run.exec (step twoEntriesConf) .start inputs
    s.departures = [.dropped "a", .batch ["b", "c"]]
      ∧ s.consumer = .ended ∧ s.accepted = s.departures.flatMap Departure.entries := by
  refine ⟨by decide, by decide, ?_⟩
  refine (queue_delivers_once_in_order twoEntriesConf _ ?_).2.2.2 (by decide)
  exact ⟨fun _ => ⟨_, rfl⟩, fun _ => ⟨_, rfl⟩, fun _ => ⟨_, rfl⟩, trivial, trivial, trivial,
    trivial, trivial, trivial⟩

end KongGateway.Kong.Tools
