import KongGateway.Kong.Tools.Queue.Delivery

/-!
# Assertions — when `enqueue` raises

`enqueue` drops entries from the front to make room, and every drop
asserts that the semaphore has a resource to spare. The consumer may
hold the resources of the entries it counts, or wait for one, so the
entries are there but the resources are not. `Fits` says on the queue
before the call how many drops it takes and what else the assertions
ask for; `enqueue_ok_iff` shows that it is exactly this, and
`queue_assertions_hold_iff` carries it to whole runs.
-/

namespace KongGateway.Kong.Tools

/-! ## What the assertions ask for -/

def bytesOf : List String → Int
  | [] => 0
  | entry :: rest => entry.length + bytesOf rest

/-- How many of the oldest entries must go until the others fit into
the room. -/
def dropsToFit (room : Int) : List String → Nat
  | [] => 0
  | entry :: rest => if bytesOf (entry :: rest) ≤ room then 0 else dropsToFit room rest + 1

/-- The drop at the entry limit. -/
def entryDrops (conf : QueueConf) (q : Queue) : Nat :=
  if q.count = conf.maxEntries then 1 else 0

/-- The drops for the bytes of the entry, after that one. -/
def byteDrops (conf : QueueConf) (q : Queue) (entry : String) : Nat :=
  match conf.maxBytes with
  | none => 0
  | some maxBytes =>
    dropsToFit (maxBytes - entry.length) (q.table.content.drop (entryDrops conf q))

/-- Every drop finds a resource that nobody waits for. -/
def Covers (count : Int) (drops : Nat) : Prop := drops = 0 ∨ (drops : Int) ≤ count

/-- The byte limit is not negative, the drops are covered, and an empty
entry does not meet a queue whose bytes are used up. -/
structure Fits (conf : QueueConf) (waiters : Nat) (q : Queue) (entry : String) : Prop where
  limit : ∀ maxBytes, conf.maxBytes = some maxBytes → 0 ≤ maxBytes
  entryRoom : Covers (semaphoreCount waiters q) (entryDrops conf q)
  byteRoom : isEntryTooLarge conf entry = false →
    Covers (semaphoreCount waiters q) (entryDrops conf q + byteDrops conf q entry)
  bytesLeft : isEntryTooLarge conf entry = false → entry.length = 0 →
    ∀ maxBytes, conf.maxBytes = some maxBytes →
      bytesOf (q.table.content.drop (entryDrops conf q + byteDrops conf q entry)) < maxBytes

theorem bytesOf_nonneg (entries : List String) : 0 ≤ bytesOf entries := by
  induction entries with
  | nil => exact Int.le_refl 0
  | cons entry rest ih =>
    rw [bytesOf]
    omega

theorem bytesOf_append (entries rest : List String) :
    bytesOf (entries ++ rest) = bytesOf entries + bytesOf rest := by
  induction entries with
  | nil => simp [bytesOf]
  | cons entry entries ih =>
    rw [List.cons_append, bytesOf, bytesOf, ih]
    omega

theorem bytesOf_drop_dropsToFit {room : Int} (hroom : 0 ≤ room) (entries : List String) :
    bytesOf (entries.drop (dropsToFit room entries)) ≤ room := by
  induction entries with
  | nil => exact hroom
  | cons entry rest ih =>
    rw [dropsToFit]
    split
    · rename_i hfits
      exact hfits
    · exact ih

/-! ## Queues within their limits -/

/-- The limits hold, and the byte count is the one of the entries. -/
structure Within (conf : QueueConf) (q : Queue) : Prop where
  entries : q.count ≤ conf.maxEntries
  bytes : conf.maxBytes.isSome = true → q.bytesQueued = bytesOf q.table.content
  limit : ∀ maxBytes, conf.maxBytes = some maxBytes → 0 ≤ maxBytes → q.bytesQueued ≤ maxBytes

section

variable {conf : QueueConf} {waiters : Nat} {q q' : Queue} {entry : String}

theorem within_new (conf : QueueConf) : Within conf .new :=
  ⟨Nat.zero_le _, fun _ => rfl, fun _ _ h => h⟩

theorem remainingCapacity_eq (h : Within conf q)
    (hlimit : ∀ maxBytes, conf.maxBytes = some maxBytes → 0 ≤ maxBytes) :
    remainingCapacity conf q
      = .ok ((conf.maxEntries : Int) - q.count, conf.maxBytes.map (· - q.bytesQueued)) := by
  have hentries := h.entries
  rw [remainingCapacity]
  simp only
  rw [if_neg (by omega)]
  cases hbytes : conf.maxBytes with
  | none => rfl
  | some maxBytes =>
    have := h.limit maxBytes hbytes (hlimit maxBytes hbytes)
    simp only
    rw [if_neg (by omega)]
    rfl

theorem remainingCapacity_error (h : Within conf q) {maxBytes : Int}
    (hbytes : conf.maxBytes = some maxBytes) (hneg : maxBytes < 0) :
    ∃ err, remainingCapacity conf q = .error err := by
  have hqueued := h.bytes (by rw [hbytes]; rfl)
  have hnonneg := bytesOf_nonneg q.table.content
  have hentries := h.entries
  rw [remainingCapacity, hbytes]
  simp only
  rw [if_neg (by omega), if_pos (by omega)]
  exact ⟨_, rfl⟩

theorem isReachingMaxEntries_eq (h : Within conf q)
    (hlimit : ∀ maxBytes, conf.maxBytes = some maxBytes → 0 ≤ maxBytes) :
    isReachingMaxEntries conf q = .ok (decide (q.count = conf.maxEntries)) := by
  rw [isReachingMaxEntries, remainingCapacity_eq h hlimit]
  show Except.ok _ = _
  congr 1
  rw [decide_eq_decide]
  omega

theorem willExceedMaxBytes_eq (h : Within conf q)
    (hlimit : ∀ maxBytes, conf.maxBytes = some maxBytes → 0 ≤ maxBytes) {maxBytes : Int}
    (hbytes : conf.maxBytes = some maxBytes) (entry : String) :
    willExceedMaxBytes conf q entry
      = .ok (decide (maxBytes - entry.length < bytesOf q.table.content)) := by
  have hqueued := h.bytes (by rw [hbytes]; rfl)
  rw [willExceedMaxBytes, hbytes, if_neg (by simp), remainingCapacity_eq h hlimit, hbytes]
  show Except.ok _ = _
  congr 1
  rw [decide_eq_decide, Option.map_some, Option.getD_some, hqueued]
  omega

theorem Within.dropOldestEntry (h : Within conf q) (hle : q.resources ≤ q.count)
    (hcount : 0 < semaphoreCount waiters q) :
    ∃ rest oldest, dropOldestEntry conf waiters q = .ok (rest, oldest) ∧ Within conf rest
      ∧ Dropped q rest [oldest] := by
  obtain ⟨rest, hrest⟩ : ∃ rest, rest
      = deleteFrontmostEntry conf { q with resources := q.resources - 1 } := ⟨_, rfl⟩
  have hok : Tools.dropOldestEntry conf waiters q = .ok (rest, q.table.head?.getD "") := by
    rw [Tools.dropOldestEntry, if_pos hcount, hrest]
  have hdropped := dropOldestEntry_spec hle hok
  have hcontent := congrArg bytesOf hdropped.content
  rw [bytesOf_append, bytesOf, bytesOf] at hcontent
  have hbytes : conf.maxBytes.isSome = true → rest.bytesQueued = bytesOf rest.table.content := by
    intro hsome
    have hqueued := h.bytes hsome
    rw [semaphoreCount] at hcount
    obtain ⟨a, hhead, -⟩ := q.table.content_eq_cons (by unfold Queue.count at hle; omega)
    rw [hhead, Option.getD_some] at hcontent
    have hlength : rest.bytesQueued = q.bytesQueued - a.length := by
      rw [hrest, deleteFrontmostEntry, if_pos hsome, hhead]
      rfl
    omega
  refine ⟨rest, _, hok, ⟨?_, hbytes, ?_⟩, hdropped⟩
  · have := hdropped.count
    have := h.entries
    omega
  · intro maxBytes hsome hnonneg
    have hlimit := h.limit maxBytes hsome hnonneg
    have hqueued := h.bytes (by rw [hsome]; rfl)
    rw [hbytes (by rw [hsome]; rfl)]
    omega

theorem semaphoreCount_dropped (waiters : Nat) {entries : List String} (h : Dropped q q' entries) :
    semaphoreCount waiters q' = semaphoreCount waiters q - entries.length := by
  have := h.resources
  rw [semaphoreCount, semaphoreCount]
  omega

theorem dropUntilFits_iff {maxBytes : Int} (hbytes : conf.maxBytes = some maxBytes)
    (hroom : 0 ≤ maxBytes - entry.length) {fuel : Nat} {dropped : List String}
    (h : Within conf q) (hle : q.resources ≤ q.count) (hfuel : q.count < fuel)
    (hexceeds : maxBytes - entry.length < bytesOf q.table.content) :
    ((∃ result, dropUntilFits conf waiters entry fuel q dropped = .ok result)
        ↔ (dropsToFit (maxBytes - entry.length) q.table.content : Int) ≤ semaphoreCount waiters q)
      ∧ ∀ q' dropped', dropUntilFits conf waiters entry fuel q dropped = .ok (q', dropped') →
        Within conf q'
          ∧ q'.table.content
            = q.table.content.drop (dropsToFit (maxBytes - entry.length) q.table.content) := by
  have hlimit : ∀ m, conf.maxBytes = some m → 0 ≤ m := by
    intro m hm
    have : m = maxBytes := Option.some.inj (hm.symm.trans hbytes)
    omega
  induction fuel generalizing q dropped with
  | zero => omega
  | succ fuel ih =>
    -- the queue is not empty, since its bytes are too many
    obtain ⟨first, others, hcons⟩ : ∃ first others, q.table.content = first :: others := by
      cases hlist : q.table.content with
      | nil =>
        rw [hlist, bytesOf] at hexceeds
        omega
      | cons first others => exact ⟨first, others, rfl⟩
    have hdrops : dropsToFit (maxBytes - entry.length) q.table.content
        = dropsToFit (maxBytes - entry.length) others + 1 := by
      rw [hcons, dropsToFit, if_neg (by rw [← hcons]; omega)]
    by_cases hcount : 0 < semaphoreCount waiters q
    · obtain ⟨rest, oldest, hdrop, hwithin, hdropped⟩ := h.dropOldestEntry hle hcount
      have hothers : rest.table.content = others := by
        have := hdropped.content
        rw [hcons, List.singleton_append, List.cons.injEq] at this
        exact this.2.symm
      have hsem := semaphoreCount_dropped waiters hdropped
      rw [List.length_singleton] at hsem
      have hrestcount := hdropped.count
      rw [List.length_singleton] at hrestcount
      rw [dropUntilFits, hdrop, hdrops, hcons, List.drop_succ_cons]
      simp only [bind, Except.bind, willExceedMaxBytes_eq hwithin hlimit hbytes, hothers]
      by_cases hmore : maxBytes - entry.length < bytesOf others
      · rw [decide_eq_true hmore]
        simp only [if_true]
        obtain ⟨hiff, hresult⟩ := @ih rest (dropped ++ [oldest]) hwithin
          (hdropped.resources_le hle) (by omega) (by rw [hothers]; exact hmore)
        rw [hothers] at hiff hresult
        refine ⟨?_, hresult⟩
        rw [hiff, hsem]
        omega
      · have hnone : dropsToFit (maxBytes - entry.length) others = 0 := by
          cases others with
          | nil => rfl
          | cons second tail => rw [dropsToFit, if_pos (by omega)]
        rw [decide_eq_false hmore, hnone]
        simp only [Bool.false_eq_true, if_false, pure, Except.pure, List.drop_zero]
        refine ⟨iff_of_true ⟨_, rfl⟩ (by omega), ?_⟩
        intro q' dropped' hok
        obtain ⟨rfl, -⟩ := Prod.mk.inj (Except.ok.inj hok)
        exact ⟨hwithin, hothers⟩
    · have hraise : dropUntilFits conf waiters entry (fuel + 1) q dropped
          = .error "assertion failed!" := by
        rw [dropUntilFits, dropOldestEntry, if_neg hcount]
        rfl
      rw [hraise, hdrops]
      refine ⟨iff_of_false (by rintro ⟨_, ⟨⟩⟩) (by omega), ?_⟩
      intro q' dropped' hok
      cases hok

theorem makeRoom_iff (h : Within conf q) (hle : q.resources ≤ q.count)
    (hlimit : ∀ maxBytes, conf.maxBytes = some maxBytes → 0 ≤ maxBytes) :
    ((∃ result, makeRoom conf waiters q = .ok result)
        ↔ Covers (semaphoreCount waiters q) (entryDrops conf q))
      ∧ ∀ q' dropped, makeRoom conf waiters q = .ok (q', dropped) →
        Within conf q' ∧ q'.count < conf.maxEntries
          ∧ q'.table.content = q.table.content.drop (entryDrops conf q)
          ∧ semaphoreCount waiters q' = semaphoreCount waiters q - entryDrops conf q
          ∧ q'.resources ≤ q'.count := by
  have hpos := conf.maxEntries_pos
  rw [makeRoom, isReachingMaxEntries_eq h hlimit, entryDrops, Covers]
  by_cases hfull : q.count = conf.maxEntries
  · rw [if_pos hfull, decide_eq_true hfull]
    by_cases hcount : 0 < semaphoreCount waiters q
    · obtain ⟨rest, oldest, hdrop, hwithin, hdropped⟩ := h.dropOldestEntry hle hcount
      have hsem := semaphoreCount_dropped waiters hdropped
      have hrestcount := hdropped.count
      rw [List.length_singleton] at hsem hrestcount
      simp only [bind, Except.bind, hdrop, if_true, pure, Except.pure]
      refine ⟨iff_of_true ⟨_, rfl⟩ (.inr (by omega)), ?_⟩
      intro q' dropped hok
      obtain ⟨rfl, -⟩ := Prod.mk.inj (Except.ok.inj hok)
      refine ⟨hwithin, by omega, ?_, by omega, hdropped.resources_le hle⟩
      rw [hdropped.content]
      rfl
    · have hraise : dropOldestEntry conf waiters q = .error "assertion failed!" := by
        rw [dropOldestEntry, if_neg hcount]
      simp only [bind, Except.bind, hraise, if_true]
      refine ⟨iff_of_false (by rintro ⟨_, ⟨⟩⟩) (by omega), ?_⟩
      intro q' dropped hok
      cases hok
  · rw [if_neg hfull, decide_eq_false hfull]
    simp only [bind, Except.bind, Bool.false_eq_true, if_false, pure, Except.pure, List.drop_zero]
    refine ⟨iff_of_true ⟨_, rfl⟩ (.inl trivial), ?_⟩
    intro q' dropped hok
    obtain ⟨rfl, -⟩ := Prod.mk.inj (Except.ok.inj hok)
    have := h.entries
    exact ⟨h, by omega, rfl, by simp, hle⟩

/-- The drops a queue takes for the bytes of an entry. -/
def queueByteDrops (conf : QueueConf) (q : Queue) (entry : String) : Nat :=
  match conf.maxBytes with
  | none => 0
  | some maxBytes => dropsToFit (maxBytes - entry.length) q.table.content

theorem makeByteRoom_iff (h : Within conf q) (hle : q.resources ≤ q.count)
    (hlimit : ∀ maxBytes, conf.maxBytes = some maxBytes → 0 ≤ maxBytes)
    (hsmall : isEntryTooLarge conf entry = false) (dropped : List String) :
    ((∃ result, makeByteRoom conf waiters entry q dropped = .ok result)
        ↔ Covers (semaphoreCount waiters q) (queueByteDrops conf q entry))
      ∧ ∀ q' dropped', makeByteRoom conf waiters entry q dropped = .ok (q', dropped') →
        Within conf q'
          ∧ q'.table.content = q.table.content.drop (queueByteDrops conf q entry) := by
  rw [makeByteRoom, queueByteDrops]
  cases hbytes : conf.maxBytes with
  | none =>
    have hno : willExceedMaxBytes conf q entry = .ok false := by
      rw [willExceedMaxBytes, hbytes]
      rfl
    simp only [hno, bind, Except.bind, Bool.false_eq_true, if_false, pure, Except.pure,
      List.drop_zero]
    refine ⟨iff_of_true ⟨_, rfl⟩ (.inl rfl), ?_⟩
    intro q' dropped' hok
    obtain ⟨rfl, -⟩ := Prod.mk.inj (Except.ok.inj hok)
    exact ⟨h, rfl⟩
  | some maxBytes =>
    have hroom : 0 ≤ maxBytes - entry.length := by
      rw [isEntryTooLarge, hbytes] at hsmall
      simp only [decide_eq_false_iff_not] at hsmall
      omega
    rw [willExceedMaxBytes_eq h hlimit hbytes]
    simp only [bind, Except.bind]
    by_cases hexceeds : maxBytes - entry.length < bytesOf q.table.content
    · rw [decide_eq_true hexceeds]
      simp only [if_true]
      obtain ⟨hiff, hresult⟩ := @dropUntilFits_iff conf waiters q entry maxBytes hbytes hroom
        (q.count + 1) dropped h hle (Nat.lt_succ_self _) hexceeds
      refine ⟨?_, hresult⟩
      have hsome : dropsToFit (maxBytes - entry.length) q.table.content ≠ 0 := by
        cases hlist : q.table.content with
        | nil =>
          rw [hlist, bytesOf] at hexceeds
          omega
        | cons first others =>
          rw [dropsToFit, if_neg (by rw [← hlist]; omega)]
          exact Nat.succ_ne_zero _
      rw [hiff, Covers]
      exact ⟨.inr, fun hcovers => hcovers.resolve_left hsome⟩
    · have hnone : dropsToFit (maxBytes - entry.length) q.table.content = 0 := by
        cases hlist : q.table.content with
        | nil => rfl
        | cons first others => rw [dropsToFit, if_pos (by rw [← hlist]; omega)]
      rw [decide_eq_false hexceeds, hnone]
      simp only [Bool.false_eq_true, if_false, pure, Except.pure, List.drop_zero]
      refine ⟨iff_of_true ⟨_, rfl⟩ (.inl rfl), ?_⟩
      intro q' dropped' hok
      obtain ⟨rfl, -⟩ := Prod.mk.inj (Except.ok.inj hok)
      exact ⟨h, rfl⟩

/-- With room for the entry, the last assertion is about used-up
bytes. -/
theorem canEnqueue_spec (h : Within conf q)
    (hlimit : ∀ maxBytes, conf.maxBytes = some maxBytes → 0 ≤ maxBytes)
    (hroom : q.count < conf.maxEntries) (hsmall : isEntryTooLarge conf entry = false)
    (hfits : ∀ maxBytes, conf.maxBytes = some maxBytes →
      bytesOf q.table.content ≤ maxBytes - entry.length) :
    ∃ can, canEnqueue conf q entry = .ok can
      ∧ (can = true ↔ (entry.length = 0 → ∀ maxBytes, conf.maxBytes = some maxBytes →
          bytesOf q.table.content < maxBytes)) := by
  have hreaching : isReachingMaxEntries conf q = .ok false := by
    rw [isReachingMaxEntries_eq h hlimit, decide_eq_false (by omega)]
  have hentries : willExceedMaxEntries conf q = .ok false := by
    rw [willExceedMaxEntries, remainingCapacity_eq h hlimit]
    show Except.ok _ = _
    rw [decide_eq_false (by omega)]
  cases hbytes : conf.maxBytes with
  | none =>
    refine ⟨true, ?_, by simp⟩
    simp [canEnqueue, isFull, hreaching, isReachingMaxBytes, hbytes, hsmall, hentries,
      willExceedMaxBytes, bind, Except.bind, pure, Except.pure]
  | some maxBytes =>
    have hfit := hfits maxBytes hbytes
    have hqueued := h.bytes (by rw [hbytes]; rfl)
    have hexceeds : willExceedMaxBytes conf q entry = .ok false := by
      rw [willExceedMaxBytes_eq h hlimit hbytes, decide_eq_false (by omega)]
    have hfull : isReachingMaxBytes conf q
        = .ok (decide (maxBytes = bytesOf q.table.content)) := by
      rw [isReachingMaxBytes, hbytes, if_neg (by simp), remainingCapacity_eq h hlimit, hbytes]
      show Except.ok _ = _
      congr 1
      rw [decide_eq_decide, Option.map_some, Option.some.injEq, hqueued]
      omega
    refine ⟨!decide (maxBytes = bytesOf q.table.content), ?_, ?_⟩
    · by_cases hused : maxBytes = bytesOf q.table.content
      · simp [canEnqueue, isFull, hreaching, hfull, ← hused, bind, Except.bind, pure, Except.pure]
      · simp [canEnqueue, isFull, hreaching, hfull, hused, hsmall, hentries, hexceeds, bind,
          Except.bind, pure, Except.pure]
    · simp only [Bool.not_eq_true', decide_eq_false_iff_not, Option.some.injEq, forall_eq']
      omega

theorem queueByteDrops_eq {drops : Nat} (hcontent : q'.table.content = q.table.content.drop drops)
    (hdrops : drops = entryDrops conf q) :
    queueByteDrops conf q' entry = byteDrops conf q entry := by
  rw [queueByteDrops, byteDrops, hcontent, hdrops]

theorem covers_add {count : Int} {drops more : Nat} (h : Covers count drops) :
    Covers (count - drops) more ↔ Covers count (drops + more) := by
  simp only [Covers] at h ⊢
  omega

theorem Within.appendEntry (h : Within conf q) (hroom : q.count < conf.maxEntries)
    (hfits : ∀ maxBytes, conf.maxBytes = some maxBytes →
      bytesOf q.table.content ≤ maxBytes - entry.length) :
    Within conf (appendEntry conf entry q) where
  entries := by
    have hpush : (Tools.appendEntry conf entry q).count = q.count + 1 := TableQueue.count_push _ _
    omega
  bytes := by
    intro hsome
    have hqueued := h.bytes hsome
    have hcontent : (Tools.appendEntry conf entry q).table.content = q.table.content ++ [entry] :=
      TableQueue.content_push _ _
    rw [hcontent, bytesOf_append, Tools.appendEntry, if_pos hsome, hqueued]
    simp [bytesOf]
  limit := by
    intro maxBytes hbytes _
    have hqueued := h.bytes (by rw [hbytes]; rfl)
    have hfit := hfits maxBytes hbytes
    rw [Tools.appendEntry, if_pos (by rw [hbytes]; rfl)]
    dsimp only
    omega

/-- `enqueue` raises exactly when the entry does not fit, and otherwise
leaves a queue within its limits. -/
theorem enqueue_ok_iff (h : Within conf q) (hle : q.resources ≤ q.count) :
    ((∃ done, enqueue conf waiters q entry = .ok done) ↔ Fits conf waiters q entry)
      ∧ ∀ done, enqueue conf waiters q entry = .ok done → Within conf done.queue := by
  by_cases hlimit : ∀ maxBytes, conf.maxBytes = some maxBytes → 0 ≤ maxBytes
  · obtain ⟨hroom, hroomspec⟩ := @makeRoom_iff conf waiters q h hle hlimit
    rw [enqueue]
    cases hmake : makeRoom conf waiters q with
    | error err =>
      refine ⟨iff_of_false (by rintro ⟨done, ⟨⟩⟩) fun hfits => ?_, by rintro done ⟨⟩⟩
      obtain ⟨result, hresult⟩ := hroom.mpr hfits.entryRoom
      cases hmake.symm.trans hresult
    | ok result =>
    obtain ⟨q₁, dropped₁⟩ := result
    obtain ⟨hwithin₁, hcount₁, hcontent₁, hsem₁, hle₁⟩ := hroomspec q₁ dropped₁ hmake
    have hcovers := hroom.mp ⟨_, hmake⟩
    simp only [bind, Except.bind]
    cases hlarge : isEntryTooLarge conf entry with
    | true =>
      rw [if_pos rfl]
      refine ⟨iff_of_true ⟨_, rfl⟩ ⟨hlimit, hcovers, fun hsmall => by simp [hlarge] at hsmall,
        fun hsmall => by simp [hlarge] at hsmall⟩, ?_⟩
      intro done hdone
      obtain rfl := Except.ok.inj hdone
      exact hwithin₁
    | false =>
    rw [if_neg (by simp)]
    have hdrops := @queueByteDrops_eq conf q q₁ entry _ hcontent₁ rfl
    obtain ⟨hbyteroom, hbytespec⟩ :=
      @makeByteRoom_iff conf waiters q₁ entry hwithin₁ hle₁ hlimit hlarge dropped₁
    rw [hsem₁, hdrops, covers_add hcovers] at hbyteroom
    cases hmore : makeByteRoom conf waiters entry q₁ dropped₁ with
    | error err =>
      refine ⟨iff_of_false (by rintro ⟨done, ⟨⟩⟩) fun hfits => ?_, by rintro done ⟨⟩⟩
      obtain ⟨result, hresult⟩ := hbyteroom.mpr (hfits.byteRoom hlarge)
      cases hmore.symm.trans hresult
    | ok result =>
    obtain ⟨q₂, dropped₂⟩ := result
    obtain ⟨hwithin₂, hcontent₂⟩ := hbytespec q₂ dropped₂ hmore
    obtain ⟨entries, -, hdropped⟩ := makeByteRoom_spec hle₁ hmore
    have hcount₂ : q₂.count < conf.maxEntries := by
      have := hdropped.count
      omega
    have hfits₂ : ∀ maxBytes, conf.maxBytes = some maxBytes →
        bytesOf q₂.table.content ≤ maxBytes - entry.length := by
      intro maxBytes hbytes
      have hsmall : 0 ≤ maxBytes - entry.length := by
        rw [isEntryTooLarge, hbytes] at hlarge
        simp only [decide_eq_false_iff_not] at hlarge
        omega
      rw [hcontent₂, queueByteDrops, hbytes]
      exact bytesOf_drop_dropsToFit hsmall _
    obtain ⟨can, hcan, hcaniff⟩ := canEnqueue_spec hwithin₂ hlimit hcount₂ hlarge hfits₂
    rw [hcontent₂, hcontent₁, hdrops, List.drop_drop] at hcaniff
    simp only [hcan]
    cases can with
    | true =>
      refine ⟨iff_of_true ⟨_, rfl⟩ ⟨hlimit, hcovers, fun _ => hbyteroom.mp ⟨_, hmore⟩,
        fun _ => hcaniff.mp rfl⟩, ?_⟩
      intro done hdone
      obtain rfl := Except.ok.inj hdone
      exact hwithin₂.appendEntry hcount₂ hfits₂
    | false =>
      refine ⟨iff_of_false (by rintro ⟨done, ⟨⟩⟩) fun hfits => ?_, by rintro done ⟨⟩⟩
      exact absurd (hcaniff.mpr (hfits.bytesLeft hlarge)) (by simp)
  · -- the first thing `enqueue` does is to look at the capacity
    have hraises : ¬∃ done, enqueue conf waiters q entry = .ok done := by
      rw [not_forall] at hlimit
      obtain ⟨maxBytes, hneg⟩ := hlimit
      rw [Classical.not_imp] at hneg
      obtain ⟨err, herr⟩ := remainingCapacity_error h hneg.1 (by omega)
      rintro ⟨done, hdone⟩
      simp [enqueue, makeRoom, isReachingMaxEntries, herr, bind, Except.bind] at hdone
    exact ⟨iff_of_false hraises fun hfits => hlimit hfits.limit,
      fun done hdone => absurd ⟨done, hdone⟩ hraises⟩

end

/-! ## Runs -/

section

variable {conf : QueueConf} {s : System}

theorem Within.deleteEntries {n : Nat} {q : Queue} (h : Within conf q) (hn : n ≤ q.count) :
    Within conf (deleteEntries conf n q) := by
  have hcontent := deleteEntries_content conf hn
  have hbytes : conf.maxBytes.isSome = true →
      (Tools.deleteEntries conf n q).bytesQueued = q.bytesQueued
        - bytesOf (q.table.content.take n) := by
    intro hsome
    clear hcontent h
    induction n generalizing q with
    | zero => simp [Tools.deleteEntries, bytesOf]
    | succ n ih =>
      have hpos : 0 < q.table.count := Nat.lt_of_lt_of_le (Nat.succ_pos n) hn
      have hcount : (deleteFrontmostEntry conf q).count = q.count - 1 := q.table.count_pop hpos
      obtain ⟨a, hhead, hcons⟩ := q.table.content_eq_cons hpos
      have hfront : (deleteFrontmostEntry conf q).bytesQueued = q.bytesQueued - a.length := by
        rw [deleteFrontmostEntry, if_pos hsome, hhead]
        rfl
      have hrest : (deleteFrontmostEntry conf q).table.content = q.table.pop.content := rfl
      rw [Tools.deleteEntries, ih (by omega), hfront, hcons, List.take_succ_cons, bytesOf, hrest]
      omega
  have hsplit := congrArg bytesOf (List.take_append_drop n q.table.content)
  rw [bytesOf_append] at hsplit
  refine ⟨?_, ?_, ?_⟩
  · have := h.entries
    rw [deleteEntries_count conf hn]
    omega
  · intro hsome
    rw [hbytes hsome, hcontent, h.bytes hsome]
    omega
  · intro maxBytes hlimit hnonneg
    have := h.limit maxBytes hlimit hnonneg
    have := bytesOf_nonneg (q.table.content.take n)
    rw [hbytes (by rw [hlimit]; rfl)]
    omega

/-- The history accounts for the entries, and the queue is within its
limits. -/
structure Sound (conf : QueueConf) (s : System) : Prop where
  delivered : Delivered conf s
  within : Within conf s.queue

theorem Sound.getOrCreateQueue (h : Sound conf s) :
    Within conf s.getOrCreateQueue
      ∧ s.getOrCreateQueue.resources ≤ s.getOrCreateQueue.count := by
  obtain ⟨-, hcount⟩ := h.delivered.getOrCreateQueue
  refine ⟨?_, by omega⟩
  rw [System.getOrCreateQueue]
  split
  · exact within_new conf
  · exact h.within

theorem Sound.flushBatch (h : Sound conf s) :
    Within conf (flushBatch conf s.consumer.taken s).queue := by
  have hcount := h.delivered.count
  exact h.within.deleteEntries (by omega)

theorem Within.take {q : Queue} (h : Within conf q) (resources : Nat) :
    Within conf { q with resources := resources } := ⟨h.entries, h.bytes, h.limit⟩

theorem Sound.step (h : Sound conf s) (input : Input) (hassert : AssertionsHold conf s input) :
    Sound conf (step conf s input) := by
  refine ⟨h.delivered.step input hassert, ?_⟩
  cases input with
  | enqueue entry =>
    rw [Tools.step]
    split
    · rename_i hyields
      obtain ⟨done, hdone⟩ := hassert hyields
      obtain ⟨hwithin, hle⟩ := h.getOrCreateQueue
      rw [enqueueStep, hdone]
      exact (enqueue_ok_iff hwithin hle).2 done hdone
    · exact h.within
  | loop =>
    rw [Tools.step]
    split
    · split
      · exact h.within
      · split
        · exact h.within
        · exact h.within.take _
    · exact h.within
  | wait =>
    rw [Tools.step]
    split
    · split
      · split
        · exact h.within
        · exact h.within.take _
      · exact h.within
    · exact h.within
  | wake =>
    rw [Tools.step]
    split
    · split
      · exact h.within
      · exact h.within.take _
    · exact h.within
  | timeout =>
    rw [Tools.step]
    split
    · exact h.within
    · exact h.within
  | waitError =>
    rw [Tools.step]
    split
    · rename_i entryCount hwaiting
      have hflush := h.flushBatch
      rwa [hwaiting] at hflush
    · exact h.within
  | flush =>
    rw [Tools.step]
    split
    · rename_i entryCount hcoalescing
      have hflush := h.flushBatch
      rwa [hcoalescing] at hflush
    · exact h.within
  | handled =>
    rw [Tools.step]
    split
    · exact h.within
    · exact h.within

/-- Every entry fits at the moment it is enqueued. -/
def FitsWhenEnqueued (conf : QueueConf) (s : System) : Input → Prop
  | .enqueue entry => s.consumer.yields = true →
      Fits conf s.consumer.waiters s.getOrCreateQueue entry
  | _ => True

theorem Sound.assertionsHold_iff (h : Sound conf s) (input : Input) :
    AssertionsHold conf s input ↔ FitsWhenEnqueued conf s input := by
  cases input with
  | enqueue entry =>
    obtain ⟨hwithin, hle⟩ := h.getOrCreateQueue
    exact imp_congr_right fun _ => (enqueue_ok_iff hwithin hle).1
  | _ => exact Iff.rfl

/-- A run raises no error exactly when in each of its steps the entry
enqueued fits. -/
theorem queue_assertions_hold_iff (conf : QueueConf) (inputs : List Input) :
    Run.Guarded (step conf) (AssertionsHold conf) .start inputs
      ↔ Run.Guarded (step conf) (FitsWhenEnqueued conf) .start inputs := by
  have hstart : Sound conf .start := ⟨delivered_start conf, within_new conf⟩
  generalize System.start = s at hstart
  induction inputs generalizing s with
  | nil => exact Iff.rfl
  | cons input rest ih =>
    rw [Run.guarded_cons, Run.guarded_cons, hstart.assertionsHold_iff]
    exact and_congr_right fun hfits =>
      ih _ (hstart.step input ((hstart.assertionsHold_iff input).mpr hfits))

/-- One entry allowed in the queue, ten in a batch. -/
def singleEntryConf : QueueConf where
  maxBatchSize := 10
  maxEntries := 1
  maxBytes := none
  maxBatchSize_pos := by decide
  maxEntries_pos := Nat.one_pos

/-- The consumer counts the only entry and waits for more when the next
one is enqueued: there is an entry to drop, but no resource for it. -/
theorem enqueue_raises_while_consumer_waits :
    ¬ Run.Guarded (step singleEntryConf) (AssertionsHold singleEntryConf) .start
      [.enqueue "a", .loop, .wait, .enqueue "b"] := by
  intro hrun
  obtain ⟨-, -, -, hassert, -⟩ := hrun
  obtain ⟨done, hdone⟩ := hassert rfl
  cases hdone

end

end KongGateway.Kong.Tools
