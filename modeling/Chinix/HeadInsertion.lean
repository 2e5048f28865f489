import Chinix.CircularList
import Chinix.QueueRuns

/-! # Who is dequeued first

    `thread_preempt` puts a thread with quantum left at the head of its run
    queue and one without at the tail.  `get_new_thread` takes threads off
    the front, and `list_add_head` has the body of `list_add_tail`: both ends
    are the back.  So a preempted thread with quantum left keeps its turn
    exactly when no other thread of its priority is ready. -/

namespace ChinixHeadInsertion

open ChinixKernel ChinixRunQueue ChinixThread ChinixMachine Outcome
open ChinixQueueInvariant ChinixQueueRuns

variable {cfg : Config} {k k' : Kernel} {t u : Tid}

/-! ## The order of dequeuing -/

/-- What calls of `get_new_thread` return, one after the other. -/
def dequeues : Nat → Kernel → List Tid
  | 0, _ => []
  | n + 1, k => (getNewThread k).1 :: dequeues n (getNewThread k).2

/-- `get_new_thread` returns `t` before it returns `u`. -/
def DequeuedBefore (k : Kernel) (t u : Tid) : Prop :=
  ∃ n, t ∈ dequeues n k ∧ u ∉ dequeues n k

/-- The threads on the run queues, those of the lowest index first. -/
def readyThreads (k : Kernel) : List Tid :=
  (List.range numPriority).flatMap k.runQueue

/-- A run queue among the others. -/
theorem readyThreads_split (k : Kernel) {q : Nat} (hq : q < numPriority) :
    readyThreads k = (List.range q).flatMap k.runQueue ++ (k.runQueue q ++
      (List.range' (q + 1) (numPriority - (q + 1))).flatMap k.runQueue) := by
  have hsplit : List.range numPriority
      = List.range q ++ q :: List.range' (q + 1) (numPriority - (q + 1)) := by
    rw [← List.range'_succ, List.range_eq_range', List.range_eq_range']
    have happ : List.range' 0 q ++ List.range' q (numPriority - (q + 1) + 1)
        = List.range' 0 (q + (numPriority - (q + 1) + 1)) := by
      simpa using List.range'_append_1 (s := 0)
    rw [happ]
    congr 1
    omega
  rw [readyThreads, hsplit, List.flatMap_append, List.flatMap_cons]

/-- Queues that are empty contribute nothing. -/
theorem flatMap_runQueue_nil {qs : List Nat}
    (h : ∀ q ∈ qs, k.runQueue q = []) : qs.flatMap k.runQueue = [] := by
  rw [List.flatMap_eq_nil_iff]
  exact h

/-- The first thread that is taken off a run queue is the first of the ready
    threads. -/
theorem readyThreads_dequeue {q : Nat} {ts : List Tid} (hq : q < numPriority)
    (hcons : k.runQueue q = t :: ts) (hlow : ∀ p < q, k.runQueue p = []) :
    readyThreads k = t :: readyThreads (dequeue k q t) := by
  have hempty : (List.range q).flatMap k.runQueue = [] :=
    flatMap_runQueue_nil fun p hp => hlow p (List.mem_range.mp hp)
  have hl : k.queues.link t = some (.run q) :=
    k.queues.link_of_items_cons hcons
  -- the other queues keep their threads
  have hother : ∀ p, p ≠ q → (dequeue k q t).runQueue p = k.runQueue p := by
    intro p hp
    refine k.queues.items_delete_of_ne ?_
    rw [hl]
    simpa using Ne.symm hp
  have hsame : (dequeue k q t).runQueue q = ts :=
    k.queues.items_delete_head hcons
  have hempty' : (List.range q).flatMap (dequeue k q t).runQueue = [] := by
    refine flatMap_runQueue_nil fun p hp => ?_
    have hlt := List.mem_range.mp hp
    rw [hother p (Nat.ne_of_lt hlt), hlow p hlt]
  have hrest : (List.range' (q + 1) (numPriority - (q + 1))).flatMap
      (dequeue k q t).runQueue = (List.range' (q + 1)
        (numPriority - (q + 1))).flatMap k.runQueue := by
    refine List.flatMap_congr fun p hp => hother p ?_
    have := (List.mem_range'_1.mp hp).1
    omega
  rw [readyThreads_split k hq, readyThreads_split _ hq, hempty, hempty',
    hsame, hrest, hcons]
  rfl

/-- **The order of dequeuing** is the order of the run queues, and the idle
    thread is what comes after. -/
theorem dequeues_eq (n : Nat) (h : QueueInv False k) :
    dequeues n k = (readyThreads k ++ List.replicate n idleThread).take n := by
  induction n generalizing k with
  | zero => simp [dequeues]
  | succ n ih =>
      have hnext : QueueInv False (getNewThread k).2 :=
        QueueInv.getNewThread h
      rw [dequeues, ih hnext]
      rcases getNewThread_cases h.bitmap with ⟨hnil, hg⟩ |
        ⟨q, t, ts, hq, hcons, hlow, hg⟩
      · have hready : readyThreads k = [] :=
          flatMap_runQueue_nil fun q hq => hnil q (List.mem_range.mp hq)
        rw [hg, hready, List.nil_append, List.nil_append,
          List.replicate_succ, List.take_succ_cons]
      · have hready := readyThreads_dequeue hq hcons hlow
        rw [hg, hready, List.cons_append, List.take_succ_cons,
          List.replicate_succ']
        congr 1
        rw [← List.append_assoc]
        exact (List.take_append_of_le_length (by simp)).symm

/-- A front part of a run queue is dequeued before the rest of it. -/
theorem dequeuedBefore_of_append (h : QueueInv False k) {p : Nat}
    (hp : p < numPriority) {ys zs : List Tid}
    (hq : k.runQueue p = ys ++ zs) (ht : t ∈ ys) (hu : u ∈ zs) :
    DequeuedBefore k t u := by
  have hlow : ∀ q, u ∈ k.runQueue q → q = p := by
    intro q hmem
    have hup : u ∈ k.runQueue p := by rw [hq]; exact List.mem_append_right _ hu
    have hhead := k.queues.head_unique hmem hup
    simpa using hhead
  have hnodup : (ys ++ zs).Nodup := hq ▸ k.queues.nodup (.run p)
  refine ⟨((List.range p).flatMap k.runQueue ++ ys).length, ?_⟩
  have htake : dequeues ((List.range p).flatMap k.runQueue ++ ys).length k
      = (List.range p).flatMap k.runQueue ++ ys := by
    rw [dequeues_eq _ h, readyThreads_split k hp, hq]
    simp only [← List.append_assoc]
    rw [List.append_assoc, List.append_assoc, List.take_left]
  rw [htake]
  refine ⟨List.mem_append_right _ ht, ?_⟩
  intro hmem
  rcases List.mem_append.mp hmem with hbefore | hys
  · obtain ⟨q, hqr, hmemq⟩ := List.mem_flatMap.mp hbefore
    have hlt := List.mem_range.mp hqr
    rw [hlow q hmemq] at hlt
    exact Nat.lt_irrefl p hlt
  · exact (List.nodup_append.mp hnodup).2.2 u hys u hu rfl

/-- More calls of `get_new_thread` return the same threads first. -/
theorem dequeues_take (k : Kernel) {m n : Nat} (hmn : m ≤ n) :
    dequeues m k <+: dequeues n k := by
  induction m generalizing k n with
  | zero => exact List.nil_prefix
  | succ m ih =>
      obtain ⟨n, rfl⟩ : ∃ j, n = j + 1 := ⟨n - 1, by omega⟩
      exact List.cons_prefix_cons.mpr
        ⟨rfl, ih _ (Nat.le_of_succ_le_succ hmn)⟩

/-- Of two threads one is dequeued first. -/
theorem DequeuedBefore.asymm (h : DequeuedBefore k t u) :
    ¬ DequeuedBefore k u t := by
  rintro ⟨m, hum, htm⟩
  obtain ⟨n, htn, hun⟩ := h
  rcases Nat.le_total n m with hle | hle
  · exact htm ((dequeues_take k hle).subset htn)
  · exact hun ((dequeues_take k hle).subset hum)

/-! ## Insertion -/

/-- The threads of a run queue are dequeued before one that is enqueued. -/
theorem dequeuedBefore_enqueue (h : QueueInv False (enqueue k t))
    (hl : k.queues.link t = none) (hp : PriorityOk (k.threads t).priority)
    (hu : u ∈ k.runQueue (k.threads t).priority.toNat) :
    DequeuedBefore (enqueue k t) u t := by
  refine dequeuedBefore_of_append h hp.toNat_lt ?_ hu
    (List.mem_singleton_self t)
  rw [runQueue_enqueue hl, if_pos rfl]

/-- **Head insertion**: the thread is dequeued before those that were on its
    run queue exactly when there were none. -/
theorem insertInRunQueueHead_first_iff (h : QueueInv False k)
    (ht : t ≠ idleThread) (hins : insertInRunQueueHead t k = .ok k') :
    (∀ u ∈ k.runQueue (k.threads t).priority.toNat, DequeuedBefore k' t u) ↔
      k.runQueue (k.threads t).priority.toNat = [] := by
  obtain ⟨hl, hp, rfl⟩ := (insertInRunQueueTail_spec t k).of_ok hins
  have hinv : QueueInv False (enqueue k t) := h.enqueue hl hp ht
  constructor
  · intro hfirst
    refine List.eq_nil_iff_forall_not_mem.mpr ?_
    intro u hu
    exact (hfirst u hu).asymm (dequeuedBefore_enqueue hinv hl hp hu)
  · intro hnil u hu
    rw [hnil] at hu
    cases hu

/-- Tail insertion: the thread is dequeued after all of them. -/
theorem insertInRunQueueTail_last (h : QueueInv False k)
    (ht : t ≠ idleThread) (hins : insertInRunQueueTail t k = .ok k') :
    ∀ u ∈ k.runQueue (k.threads t).priority.toNat, DequeuedBefore k' u t := by
  obtain ⟨hl, hp, rfl⟩ := (insertInRunQueueTail_spec t k).of_ok hins
  exact fun u hu => dequeuedBefore_enqueue (h.enqueue hl hp ht) hl hp hu

/-! ## The lists in memory -/

/-- `insert_in_run_queue_head` writes what `list_add_head` writes. -/
theorem insertInRunQueueHead_memory
    {mem : ChinixCircularList.Memory (ChinixCircularList.Address QueueRef Tid)}
    (hr : ChinixCircularList.Represents mem k.queues)
    (hins : insertInRunQueueHead t k = .ok k') :
    ∃ mem', ChinixCircularList.listAddHead
        (.head (.run (k.threads t).priority.toNat)) (.node t) mem = some mem' ∧
      ChinixCircularList.Represents mem' k'.queues := by
  obtain ⟨hl, -, rfl⟩ := (insertInRunQueueTail_spec t k).of_ok hins
  rw [ChinixCircularList.listAddHead_eq_listAddTail]
  exact hr.addTail hl

/-- `get_new_thread` deletes the node of the thread it returns, unless that is
    the idle thread because no run queue has one. -/
theorem getNewThread_memory
    {mem : ChinixCircularList.Memory (ChinixCircularList.Address QueueRef Tid)}
    (hb : BitmapOk k) (hr : ChinixCircularList.Represents mem k.queues) :
    getNewThread k = (idleThread, k) ∨
      ∃ mem', ChinixCircularList.listDelete (.node (getNewThread k).1) mem
          = some mem' ∧
        ChinixCircularList.Represents mem' (getNewThread k).2.queues := by
  rcases getNewThread_cases hb with ⟨-, hg⟩ | ⟨q, t, ts, -, hcons, -, hg⟩
  · exact .inl hg
  · rw [hg]
    exact .inr (hr.delete (k.queues.link_of_items_cons hcons))

/-! ## Preemption -/

/-- `thread_preempt` up to its call of `thread_resched`. -/
def requeuePreempted (k : Kernel) : Except Fault Kernel :=
  let thread := k.current
  let k := (k.emit (.preempted thread)).setState thread .ready
  if threadIsIdle k thread then pure k
  else if (k.threads thread).remainingQuantum > 0 then
    insertInRunQueueHead thread k
  else insertInRunQueueTail thread k

theorem threadPreempt_eq (k : Kernel) :
    threadPreempt k = (do
      let k1 ← requeuePreempted k
      return threadResched
        (k1.pushFrame k.current (.afterResched .preempt 0))) := rfl

/-- A step from `k` calls `thread_preempt` in the state `kp`: its caller does,
    or the exception handler after the timer callbacks. -/
def PreemptCall (cfg : Config) (k kp : Kernel) : Prop :=
  Enabled cfg .threadPreempt k ∧ kp = k ∨
    Enabled cfg .interrupt k ∧ osTimerTickIsr k = .ok (.reschedule, kp)

/-- The threads that were ready at the priority of the caller. -/
def readyPeers (kp : Kernel) : List Tid :=
  kp.runQueue (kp.threads kp.current).priority.toNat

/-- The place of a preempted thread among the ready ones of its priority: the
    first with quantum left, else the last. -/
def TakesItsPlace (kp kq : Kernel) : Prop :=
  (0 < (kp.threads kp.current).remainingQuantum →
      ∀ u ∈ readyPeers kp, DequeuedBefore kq kp.current u) ∧
    ((kp.threads kp.current).remainingQuantum ≤ 0 →
      ∀ u ∈ readyPeers kp, DequeuedBefore kq u kp.current)

theorem PreemptCall.queueInv {kp : Kernel} (h : Reachable cfg AnyCall k)
    (hcall : PreemptCall cfg k kp) :
    QueueInv False kp ∧ booted kp = true := by
  have hinv : QueueInv False k :=
    queueInv_of_reachable (fun _ _ _ hf => hf.elim) h
  rcases hcall with ⟨hen, rfl⟩ | ⟨hen, hisr⟩
  · exact ⟨hinv, QueueInv.booted_of_inThread hinv hen⟩
  · obtain ⟨hkp, hb⟩ := (osTimerTickIsr_queueInv hinv).of_ok hisr
    exact ⟨hkp, hb.trans hen.1⟩

/-- What `thread_preempt` does with the run queues. -/
theorem takesItsPlace_iff {kp kq : Kernel} (h : QueueInv False kp)
    (hb : booted kp = true) (hidle : threadIsIdle kp kp.current = false)
    (hins : requeuePreempted kp = .ok kq) :
    TakesItsPlace kp kq ↔
      (0 < (kp.threads kp.current).remainingQuantum → readyPeers kp = []) := by
  have hne : kp.current ≠ idleThread :=
    ne_idle_of_not_flag hb (by rw [hidle]; simp)
  -- the state that the insertions get
  have h1 : QueueInv False
      ((kp.emit (.preempted kp.current)).setState kp.current .ready) :=
    (h.emit (by simp)).setState .ready
  have hpeers : ((kp.emit (.preempted kp.current)).setState kp.current
      .ready).runQueue ((((kp.emit (.preempted kp.current)).setState
        kp.current .ready).threads kp.current).priority.toNat)
      = readyPeers kp := by
    simp [readyPeers, Kernel.runQueue]
  have hflag : threadIsIdle ((kp.emit (.preempted kp.current)).setState
      kp.current .ready) kp.current = false := by
    simpa [threadIsIdle] using hidle
  rw [requeuePreempted] at hins
  simp only [hflag, Bool.false_eq_true, if_false] at hins
  by_cases hq : 0 < (kp.threads kp.current).remainingQuantum
  · rw [if_pos (by simpa using hq)] at hins
    have hfirst := insertInRunQueueHead_first_iff h1 hne hins
    rw [hpeers] at hfirst
    have hnot : ¬ (kp.threads kp.current).remainingQuantum ≤ 0 := by omega
    simp only [TakesItsPlace, hq, hnot, forall_const, false_imp_iff, and_true]
    exact hfirst
  · rw [if_neg (by simpa using hq)] at hins
    have hlast := insertInRunQueueTail_last h1 hne hins
    rw [hpeers] at hlast
    simp only [TakesItsPlace, hq, false_imp_iff, true_and, iff_true]
    exact fun _ => hlast

/-- Two created threads of priority 5; the first one runs. -/
def twoPeers : List Action :=
  [.threadCreate 5, .goOn, .goOn, .goOn, .threadResume 1 true,
   .threadCreate 5, .goOn, .goOn, .goOn, .threadResume 2 true,
   .threadBecomeIdle, .goOn, .goOn]

/-- Thread 1 runs with quantum left while thread 2 is ready. -/
def OneBeforeTwo (k : Kernel) : Prop :=
  Enabled tenSlots .threadPreempt k ∧ threadIsIdle k k.current = false ∧
    0 < (k.threads k.current).remainingQuantum ∧ readyPeers k = [2] ∧
    (requeuePreempted k).toBool = true

instance (k : Kernel) : Decidable (OneBeforeTwo k) :=
  inferInstanceAs (Decidable (_ ∧ _ ∧ _ ∧ _ ∧ _))

theorem exists_oneBeforeTwo :
    ∃ k, Reachable tenSlots AnyCall k ∧ OneBeforeTwo k :=
  exists_reachable_of_replay tenSlots AnyCall OneBeforeTwo twoPeers
    (by decide +kernel)

end ChinixHeadInsertion
