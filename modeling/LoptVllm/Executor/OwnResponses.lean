import Mathlib.Data.List.Range
import LoptVllm.Executor.Multiproc

/-!
# Every call gets its own responses

A failure ends the loop over the queues: a response behind it stays unread, and shifts every later
answer of that worker.
-/

namespace LoptVllm.Executor

open List Function Option Bool Nat

variable {n : ℕ} {R V : Type*} {workers : Workers n R}

/-! ### The queues a call reads -/

variable {rank : Fin n}

theorem RpcCall.mem_responseMqs {call : RpcCall n R V} :
    rank ∈ call.responseMqs ↔ call.addresses rank = true := by
  unfold responseMqs addresses
  cases h : call.outputRank with
  | none => simp
  | some r => simp [eq_comm]

theorem RpcCall.nodup_responseMqs (call : RpcCall n R V) : call.responseMqs.Nodup := by
  unfold responseMqs
  cases call.outputRank with
  | none => exact nodup_finRange n
  | some r => exact nodup_singleton r

/-- The answer of a worker to a call. -/
def Workers.answer (workers : Workers n R) (c : ℕ) (rank : Fin n) : Response R :=
  ⟨c, workers.run c rank⟩

/-- The worker is addressed by the call of that number. -/
def Addressed (calls : List (RpcCall n R V)) (rank : Fin n) (c : ℕ) : Bool :=
  calls[c]?.any fun call => call.addresses rank

/-- The answers of a worker to the calls from `front` up to `stop`. -/
def answers (workers : Workers n R) (calls : List (RpcCall n R V)) (rank : Fin n)
    (front stop : ℕ) : List (Response R) :=
  ((List.range' front (stop - front)).filter (Addressed calls rank)).map (workers.answer · rank)

section Answers

variable {calls : List (RpcCall n R V)} {rank : Fin n} {front stop : ℕ}

theorem mem_answers {r : Response R} (h : r ∈ answers workers calls rank front stop) :
    front ≤ r.call ∧ r.call < stop := by
  obtain ⟨c, hc, rfl⟩ := mem_map.1 h
  have hmem := mem_range'_1.1 (mem_filter.1 hc).1
  have hcall : (workers.answer c rank).call = c := rfl
  omega

theorem answers_of_le (h : stop ≤ front) : answers workers calls rank front stop = [] := by
  rw [answers, Nat.sub_eq_zero_of_le h]
  rfl

theorem answers_cons (h : front < stop) (haddr : Addressed calls rank front = true) :
    answers workers calls rank front stop =
      workers.answer front rank :: answers workers calls rank (front + 1) stop := by
  obtain ⟨d, rfl⟩ := Nat.exists_eq_add_of_lt h
  rw [answers, show front + d + 1 - front = d + 1 by omega, range'_succ,
    filter_cons_of_pos haddr, answers, show front + d + 1 - (front + 1) = d by omega]
  rfl

theorem answers_skip (haddr : Addressed calls rank front = false) :
    answers workers calls rank front stop = answers workers calls rank (front + 1) stop := by
  rcases lt_or_ge front stop with h | h
  · obtain ⟨d, rfl⟩ := Nat.exists_eq_add_of_lt h
    rw [answers, show front + d + 1 - front = d + 1 by omega, range'_succ,
      filter_cons_of_neg (by rw [haddr]; decide), answers,
      show front + d + 1 - (front + 1) = d by omega]
  · rw [answers_of_le h, answers_of_le (le_succ_of_le h)]

theorem answers_succ (h : Addressed calls rank stop = true → front ≤ stop) :
    answers workers calls rank front (stop + 1) = answers workers calls rank front stop ++
      if Addressed calls rank stop then [workers.answer stop rank] else [] := by
  rcases lt_or_ge stop front with hlt | hle
  · have haddr : Addressed calls rank stop = false := eq_false_iff.2 fun haddr => by
      have := h haddr
      omega
    rw [answers_of_le hlt, answers_of_le hlt.le, haddr]
    rfl
  · rw [answers, show stop + 1 - front = stop - front + 1 by omega, range'_concat,
      filter_append, map_append, Nat.one_mul, Nat.add_sub_cancel' hle]
    congr 1
    cases haddr : Addressed calls rank stop <;> simp [haddr]

end Answers

/-! ### The response queues -/

open MultiprocExecutor

variable {s s' : MultiprocExecutor n R V}

/-- The executor's thread has not moved. -/
structure SameThread (s s' : MultiprocExecutor n R V) : Prop where
  calls : s'.calls = s.calls
  futuresQueue : s'.futuresQueue = s.futuresQueue
  control : s'.control = s.control
  reading : s'.reading = s.reading
  done : s'.done = s.done

theorem sameThread_of_consume (h : s.consume workers rank = some s') : SameThread s s' := by
  obtain ⟨call, -, rfl⟩ := map_eq_some_iff.1 h
  split_ifs <;> exact ⟨rfl, rfl, rfl, rfl, rfl⟩

theorem flush_eq_some (h : s.flush rank = some s') :
    ∃ output outputs, s.asyncOutputs rank = output :: outputs ∧ s' = { s with
      asyncOutputs := update s.asyncOutputs rank outputs
      responses := update s.responses rank (s.responses rank ++ [output]) } := by
  rw [flush] at h
  cases hout : s.asyncOutputs rank with
  | nil =>
    rw [hout] at h
    cases h
  | cons output outputs =>
    rw [hout] at h
    exact ⟨output, outputs, rfl, (some.inj h).symm⟩

theorem sameThread_of_flush (h : s.flush rank = some s') : SameThread s s' := by
  obtain ⟨_, _, -, rfl⟩ := flush_eq_some h
  exact ⟨rfl, rfl, rfl, rfl, rfl⟩

/-- A worker's queues hold its answers to the calls from a front on. -/
structure Fronts (workers : Workers n R) (s : MultiprocExecutor n R V) (front : Fin n → ℕ) :
    Prop where
  consumed_le : ∀ w, s.consumed w ≤ s.calls.length
  sync : workers.useAsyncScheduling = false → ∀ w, s.asyncOutputs w = []
  answered : ∀ w, s.responses w ++ s.asyncOutputs w =
    answers workers s.calls w (front w) (s.consumed w)
  /-- What was read was answered before. -/
  passed : ∀ w c, Addressed s.calls w c = true → c < front w → c < s.consumed w

namespace Fronts

variable {front : Fin n → ℕ}

theorem congr (h : Fronts workers s front) (hcalls : s'.calls = s.calls)
    (hconsumed : s'.consumed = s.consumed) (hresponses : s'.responses = s.responses)
    (hasync : s'.asyncOutputs = s.asyncOutputs) : Fronts workers s' front where
  consumed_le := hcalls ▸ hconsumed ▸ h.consumed_le
  sync := hasync ▸ h.sync
  answered := fun w => by
    rw [hresponses, hasync, hcalls, hconsumed]
    exact h.answered w
  passed := hcalls ▸ hconsumed ▸ h.passed

variable {rank : Fin n}

section

variable (h : Fronts workers s front)

include h

theorem consume (hstep : s.consume workers rank = some s') : Fronts workers s' front := by
  obtain ⟨call, hcall, rfl⟩ := map_eq_some_iff.1 hstep
  have hlt : s.consumed rank < s.calls.length := (List.getElem?_eq_some_iff.1 hcall).1
  have haddr : Addressed s.calls rank (s.consumed rank) = call.addresses rank := by
    rw [Addressed, hcall]
    rfl
  have hnew : answers workers s.calls rank (front rank) (s.consumed rank + 1) =
      answers workers s.calls rank (front rank) (s.consumed rank) ++
        if Addressed s.calls rank (s.consumed rank) then [workers.answer (s.consumed rank) rank]
        else [] := answers_succ fun haddr => by
    by_contra hlt
    exact absurd (h.passed rank _ haddr (Nat.lt_of_not_le hlt)) (lt_irrefl _)
  rw [haddr, ← h.answered] at hnew
  have hconsumed : ∀ w, update s.consumed rank (s.consumed rank + 1) w ≤
      s.calls.length := fun w => by
    by_cases hw : w = rank
    · subst hw
      rw [update_self]
      exact hlt
    · rw [update_of_ne hw]
      exact h.consumed_le w
  have hpassed : ∀ w c, Addressed s.calls w c = true → c < front w →
      c < update s.consumed rank (s.consumed rank + 1) w := fun w c hc hlt => by
    have := h.passed w c hc hlt
    by_cases hw : w = rank
    · subst hw
      rw [update_self]
      omega
    · rwa [update_of_ne hw]
  -- a worker that the call does not address answers nothing
  by_cases hcalled : call.addresses rank = true
  · rw [if_pos hcalled] at hnew ⊢
    cases hasync : workers.useAsyncScheduling with
    | true =>
      refine ⟨hconsumed, fun h => absurd (hasync.symm.trans h) (by decide), fun w => ?_, hpassed⟩
      by_cases hw : w = rank
      · subst hw
        simp only [if_true, update_self]
        rw [hnew, append_assoc]
        rfl
      · simp only [if_true, update_of_ne hw]
        exact h.answered w
    | false =>
      refine ⟨hconsumed, fun _ => h.sync hasync, fun w => ?_, hpassed⟩
      by_cases hw : w = rank
      · subst hw
        simp only [false_eq_true, if_false, update_self]
        rw [hnew, h.sync hasync, append_nil, append_nil]
        rfl
      · simp only [false_eq_true, if_false, update_of_ne hw]
        exact h.answered w
  · rw [if_neg hcalled] at hnew ⊢
    refine ⟨hconsumed, h.sync, fun w => ?_, hpassed⟩
    by_cases hw : w = rank
    · subst hw
      simp only [update_self]
      rw [hnew, append_nil]
    · simp only [update_of_ne hw]
      exact h.answered w

theorem flush (hstep : s.flush rank = some s') : Fronts workers s' front := by
  obtain ⟨output, outputs, hout, rfl⟩ := flush_eq_some hstep
  refine ⟨h.consumed_le, fun hsync w => ?_, fun w => ?_, h.passed⟩
  · rw [h.sync hsync] at hout
    cases hout
  · by_cases hw : w = rank
    · subst hw
      have := h.answered w
      rw [hout] at this
      simpa only [update_self, append_assoc, singleton_append] using this
    · simp only [update_of_ne hw]
      exact h.answered w

/-- A call is appended. -/
theorem append (call : RpcCall n R V)
    (hfront : ∀ w, front w ≤ s.calls.length) (hcalls : s'.calls = s.calls ++ [call])
    (hconsumed : s'.consumed = s.consumed) (hresponses : s'.responses = s.responses)
    (hasync : s'.asyncOutputs = s.asyncOutputs) : Fronts workers s' front := by
  have haddr : ∀ w c, c < s.calls.length → Addressed s'.calls w c = Addressed s.calls w c :=
    fun w c hc => by rw [Addressed, hcalls, getElem?_append_left hc, Addressed]
  refine ⟨fun w => ?_, fun hsync => hasync ▸ h.sync hsync, fun w => ?_, fun w c hc hlt => ?_⟩
  · rw [hconsumed, hcalls, length_append]
    exact le_add_right_of_le (h.consumed_le w)
  · rw [hresponses, hasync, hconsumed, h.answered, answers, answers]
    congr 1
    refine filter_congr fun c hc => (haddr w c ?_).symm
    have hmem := mem_range'_1.1 hc
    have := h.consumed_le w
    omega
  · rw [haddr w c (hlt.trans_le (hfront w))] at hc
    exact hconsumed ▸ h.passed w c hc hlt

theorem dequeue {r : Response R} {rest : List (Response R)}
    (hr : s.responses rank = r :: rest) (haddr : Addressed s.calls rank (front rank) = true) :
    r = workers.answer (front rank) rank ∧
      Fronts workers { s with responses := update s.responses rank rest }
        (update front rank (front rank + 1)) := by
  have hanswered := h.answered rank
  rw [hr, cons_append] at hanswered
  have hlt : front rank < s.consumed rank := by
    by_contra hle
    rw [answers_of_le (Nat.le_of_not_lt hle)] at hanswered
    cases hanswered
  rw [answers_cons hlt haddr] at hanswered
  obtain ⟨rfl, hrest⟩ := cons.inj hanswered
  refine ⟨rfl, h.consumed_le, h.sync, fun w => ?_, fun w c hc hlt' => ?_⟩
  · by_cases hw : w = rank
    · subst hw
      simp only [update_self]
      exact hrest
    · simp only [update_of_ne hw]
      exact h.answered w
  · by_cases hw : w = rank
    · subst hw
      rw [update_self] at hlt'
      exact (le_of_lt_succ hlt').trans_lt hlt
    · rw [update_of_ne hw] at hlt'
      exact h.passed w c hc hlt'

theorem skip {front' : Fin n → ℕ} (hskip : ∀ w, front' w = front w ∨
      front' w = front w + 1 ∧ Addressed s.calls w (front w) = false) :
    Fronts workers s front' := by
  refine ⟨h.consumed_le, h.sync, fun w => ?_, fun w c hc hlt => ?_⟩
  · rcases hskip w with heq | ⟨heq, haddr⟩
    · rw [heq]
      exact h.answered w
    · rw [heq, h.answered, answers_skip haddr]
  · rcases hskip w with heq | ⟨heq, haddr⟩
    · exact h.passed w c hc (heq ▸ hlt)
    · refine h.passed w c hc (lt_of_le_of_ne (by omega) fun hcw => ?_)
      rw [← hcw, hc] at haddr
      cases haddr

end

end Fronts

/-! ### The results -/

/-- Of the workers a call addresses only the last one may raise, and the aggregator accepts what
they return. -/
structure Handled (workers : Workers n R) (c : ℕ) (call : RpcCall n R V) : Prop where
  last : ∀ w ∈ call.responseMqs.dropLast, ∃ v, workers.run c w = .ok v
  accepts : ∀ aggregate, call.kvOutputAggregator = some aggregate →
    ∀ vs, call.responseMqs.map (workers.run c) = vs.map .ok →
      ∃ v, aggregate vs (call.uniqueReplyRank.elim 0 Fin.val) = .ok v

/-- A call has read what its addressed workers answered to it, raises when one of them has raised,
and otherwise returns their aggregated values. -/
structure Settled (workers : Workers n R) (c : ℕ) (call : RpcCall n R V) (out : Outcome R V) :
    Prop where
  used : out.used = call.responseMqs.map (workers.answer c)
  raises : (∃ e, out.result = .error e) ↔
    ∃ w ∈ call.responseMqs, ∃ msg, workers.run c w = .error msg
  result : ∀ vs, call.responseMqs.map (workers.run c) = vs.map .ok → out.result = call.aggregate vs

section Results

variable {c : ℕ} {call : RpcCall n R V}

/-- The values of workers that return. -/
theorem exists_values {ws : List (Fin n)} (h : ∀ w ∈ ws, ∃ v, workers.run c w = .ok v) :
    ws.map (workers.run c) = (values (ws.map (workers.answer c))).map .ok := by
  induction ws with
  | nil => rfl
  | cons w ws ih =>
    obtain ⟨v, hv⟩ := h w (.head _)
    have hvalues : values ((w :: ws).map (workers.answer c)) =
        v :: values (ws.map (workers.answer c)) := by
      rw [values, map_cons, filterMap_cons, Workers.answer, hv]
      rfl
    rw [map_cons, hv, ih fun w hw => h w (.tail _ hw), hvalues, map_cons]

theorem Handled.aggregate_ok (h : Handled workers c call) {vs : List R}
    (hvs : call.responseMqs.map (workers.run c) = vs.map .ok) :
    ∃ reply, call.aggregate vs = .ok reply := by
  unfold RpcCall.aggregate
  cases hagg : call.kvOutputAggregator with
  | some aggregate =>
    obtain ⟨v, hv⟩ := h.accepts aggregate hagg vs hvs
    exact ⟨.aggregated v, by simp only [hv, Except.map]⟩
  | none =>
    cases hrank : call.outputRank with
    | none => exact ⟨_, rfl⟩
    | some rank =>
      rw [RpcCall.responseMqs, hrank] at hvs
      cases vs with
      | nil => cases hvs
      | cons v vs => exact ⟨_, rfl⟩

/-- All responses are read and none is a failure. -/
theorem Handled.settled (h : Handled workers c call)
    (hok : ∀ w ∈ call.responseMqs, ∃ v, workers.run c w = .ok v) :
    Settled workers c call ⟨call.responseMqs.map (workers.answer c),
      call.aggregate (values (call.responseMqs.map (workers.answer c)))⟩ := by
  have hvalues := exists_values hok
  refine ⟨rfl, ?_, fun vs hvs => ?_⟩
  · obtain ⟨reply, hreply⟩ := h.aggregate_ok hvalues
    constructor
    · rintro ⟨e, he⟩
      rw [hreply] at he
      cases he
    · rintro ⟨w, hw, msg, hmsg⟩
      obtain ⟨v, hv⟩ := hok w hw
      rw [hv] at hmsg
      cases hmsg
  · have hinj : Function.Injective (Except.ok : R → Except String R) := fun _ _ h =>
      Except.ok.inj h
    rw [map_injective_iff.2 hinj (hvalues.symm.trans hvs)]

theorem settled_of_failure {ws : List (Fin n)} {rank : Fin n} {msg : String} {e : PyErr}
    (hmqs : call.responseMqs = ws ++ [rank]) (hfail : workers.run c rank = .error msg) :
    Settled workers c call ⟨ws.map (workers.answer c) ++ [workers.answer c rank], .error e⟩ := by
  refine ⟨by rw [hmqs]; simp, ⟨fun _ => ⟨rank, by simp [hmqs], msg, hfail⟩, fun _ => ⟨e, rfl⟩⟩,
    fun vs hvs => ?_⟩
  have hmem : workers.run c rank ∈ vs.map (.ok : R → Except String R) := by
    rw [← hvs, hmqs]
    simp
  obtain ⟨v, -, hv⟩ := mem_map.1 hmem
  rw [hfail] at hv
  cases hv

end Results

end LoptVllm.Executor
