import LoptVllm.Lib.Runs
import LoptVllm.Executor.OwnResponses

/-!
# Every run of the executor
-/

namespace LoptVllm.Executor

open List Option Function Nat

open MultiprocExecutor

variable {n : ℕ} {R V : Type*} {workers : Workers n R} {s s' : MultiprocExecutor n R V} {k : ℕ}
variable (s)

/-- The calls before this one are the pending futures: all, or those before the blocking call. -/
def limit : ℕ := match s.control with
  | .calling c => c
  | _ => s.calls.length

/-- What the executor's thread is doing is about a call that was made. -/
def ControlOk : Prop := match s.control with
  | .idle => s.reading = none
  | .calling c => c + 1 = s.calls.length
  | .awaiting c => c < s.calls.length
  | .indexError _ => False

variable {s}

theorem ControlOk.congr (h : ControlOk s) (hidle : s.control ≠ .idle)
    (hcontrol : s'.control = s.control) (hcalls : s'.calls = s.calls) : ControlOk s' := by
  unfold ControlOk at *
  rw [hcontrol, hcalls]
  cases hc : s.control with
  | idle => exact absurd hc hidle
  | _ =>
    rw [hc] at h
    exact h

/-- The responses read so far are those of the first queues, and none is a failure. -/
structure Reads (workers : Workers n R) (call : RpcCall n R V) (k : ℕ) (rd : Reading n R) :
    Prop where
  call_eq : rd.call = k
  read : ∃ ws, call.responseMqs = ws ++ rd.mqs ∧ rd.responses = ws.map (workers.answer k) ∧
    ∀ w ∈ ws, ∃ v, workers.run k w = .ok v

/-- Between two reads: the futures wait in order, and the queues hold the answers to call `k` and
the later ones. -/
def Waits (workers : Workers n R) (s : MultiprocExecutor n R V) (k : ℕ) : Prop :=
  s.reading = none ∧ k ≤ limit s ∧ s.futuresQueue.reverse = range' k (limit s - k) ∧
    Fronts workers s fun _ => k

/-- While call `k` is read. -/
def ReadsNow (workers : Workers n R) (s : MultiprocExecutor n R V) (k : ℕ) : Prop :=
  ∃ rd call, s.reading = some rd ∧ s.calls[k]? = some call ∧ Reads workers call k rd ∧
    s.futuresQueue.reverse = range' (k + 1) (limit s - (k + 1)) ∧
    Fronts workers s fun w => if w ∈ rd.mqs then k else k + 1

/-- The first `k` calls are completed. -/
structure Completed (workers : Workers n R) (s : MultiprocExecutor n R V) (k : ℕ) : Prop where
  handled : ∀ c call, s.calls[c]? = some call → Handled workers c call
  control : ControlOk s
  done_iff : ∀ c, (s.done c).isSome = true ↔ c < k
  settled : ∀ c out, s.done c = some out →
    ∃ call, s.calls[c]? = some call ∧ Settled workers c call out

structure Inv (workers : Workers n R) (s : MultiprocExecutor n R V) (k : ℕ) : Prop extends
    Completed workers s k where
  thread : Waits workers s k ∨ ReadsNow workers s k

theorem Inv.waits (hs : Inv workers s k) (hreading : s.reading = none) : Waits workers s k :=
  hs.thread.resolve_right fun ⟨rd, _, hrd, _⟩ => by
    rw [hreading] at hrd
    cases hrd

theorem inv_new : Inv workers (new : MultiprocExecutor n R V) 0 where
  handled := fun _ _ h => by cases h
  control := rfl
  done_iff := fun c => by simp [new]
  settled := fun _ _ h => by cases h
  thread := .inl ⟨rfl, le_rfl, rfl, fun _ => le_rfl, fun _ _ => rfl, fun _ => rfl,
    fun _ _ _ h => absurd h (not_lt_zero _)⟩

/-! ### The workers -/

theorem SameThread.limit_eq (h : SameThread s s') : limit s' = limit s := by
  rw [limit, limit, h.control, h.calls]

theorem SameThread.completed (h : SameThread s s') (hs : Completed workers s k) :
    Completed workers s' k where
  handled := h.calls ▸ hs.handled
  control := by
    have := hs.control
    unfold ControlOk at this ⊢
    rw [h.control, h.reading, h.calls]
    exact this
  done_iff := h.done ▸ hs.done_iff
  settled := by
    rw [h.done, h.calls]
    exact hs.settled

theorem Inv.worker (hs : Inv workers s k) (h : SameThread s s')
    (hfronts : ∀ front, Fronts workers s front → Fronts workers s' front) : Inv workers s' k := by
  refine ⟨h.completed hs.toCompleted, ?_⟩
  rcases hs.thread with ⟨hreading, hk, hqueue, hf⟩ | ⟨rd, call, hreading, hcall, hreads, hqueue, hf⟩
  · exact .inl ⟨h.reading.trans hreading, h.limit_eq ▸ hk, by rw [h.futuresQueue, h.limit_eq, hqueue],
      hfronts _ hf⟩
  · exact .inr ⟨rd, call, h.reading.trans hreading, h.calls ▸ hcall, hreads,
      by rw [h.futuresQueue, h.limit_eq, hqueue], hfronts _ hf⟩

/-! ### The executor's thread -/

/-- The next call is read: its future was popped, or it is the blocking one. -/
theorem Inv.read (hs : Inv workers s k) (hcontrol : s.control ≠ .idle)
    (hfronts : Fronts workers s fun _ => k) {q : List ℕ} (hk : k < s.calls.length)
    (hq : q.reverse = range' (k + 1) (limit s - (k + 1))) :
    Inv workers (read { s with futuresQueue := q } k) k := by
  obtain ⟨call, hcall⟩ : ∃ call, s.calls[k]? = some call := ⟨_, getElem?_eq_getElem hk⟩
  refine ⟨⟨hs.handled, hs.control.congr hcontrol rfl rfl, hs.done_iff, hs.settled⟩,
    .inr ⟨⟨k, call.responseMqs, []⟩, call, ?_, hcall, ⟨rfl, [], rfl, rfl, nofun⟩, hq, ?_⟩⟩
  · show s.calls[k]?.map _ = _
    rw [hcall]
    rfl
  · refine (hfronts.skip fun w => ?_).congr rfl rfl rfl rfl
    by_cases hw : w ∈ call.responseMqs
    · exact .inl (if_pos hw)
    · refine .inr ⟨if_neg hw, ?_⟩
      rw [Addressed, hcall, any_some]
      exact Bool.eq_false_iff.2 fun h => hw (RpcCall.mem_responseMqs.2 h)

theorem Inv.complete (hs : Completed workers s k) {rd : Reading n R} (hreading : s.reading = some rd)
    {call : RpcCall n R V} (hcall : s.calls[k]? = some call)
    (hqueue : s.futuresQueue.reverse = range' (k + 1) (limit s - (k + 1)))
    (responses : Fin n → List (Response R))
    (hfronts : Fronts workers { s with responses := responses } fun _ => k + 1)
    {out : Outcome R V} (hout : Settled workers k call out) :
    Inv workers (MultiprocExecutor.complete { s with responses := responses } k out) (k + 1) := by
  have hk : k < s.calls.length := (List.getElem?_eq_some_iff.1 hcall).1
  have hcontrol := hs.control
  have hnew : Completed workers
      (MultiprocExecutor.complete { s with responses := responses } k out) (k + 1) := by
    refine ⟨hs.handled, ?_, fun c => ?_, fun c o ho => ?_⟩
    · unfold ControlOk MultiprocExecutor.complete at *
      cases hc : s.control with
      | idle =>
        rw [hc, hreading] at hcontrol
        cases hcontrol
      | calling c =>
        rw [hc] at hcontrol
        by_cases hck : c = k
        · simp [hck]
        · simpa [hck] using hcontrol
      | awaiting c =>
        rw [hc] at hcontrol
        simpa using hcontrol
      | indexError c =>
        rw [hc] at hcontrol
        exact hcontrol.elim
    · show (update s.done k (some out) c).isSome = true ↔ _
      by_cases hc : c = k
      · rw [hc, update_self]
        simp
      · rw [update_of_ne hc, hs.done_iff]
        omega
    · replace ho : update s.done k (some out) c = some o := ho
      by_cases hc : c = k
      · subst hc
        rw [update_self] at ho
        cases ho
        exact ⟨call, hcall, hout⟩
      · rw [update_of_ne hc] at ho
        exact hs.settled c o ho
  have hlimit : k + 1 ≤ limit (MultiprocExecutor.complete { s with responses := responses } k out) ∧
      limit (MultiprocExecutor.complete { s with responses := responses } k out) - (k + 1) =
        limit s - (k + 1) := by
    unfold limit MultiprocExecutor.complete
    unfold ControlOk at hcontrol
    cases hc : s.control with
    | calling c =>
      rw [hc] at hcontrol
      by_cases hck : c = k
      · subst hck
        simp only [if_true]
        omega
      · have hif : (if Control.calling c = .calling k then Control.idle else .calling c) =
            .calling c := if_neg fun h => hck (Control.calling.inj h)
        rw [hif]
        exact ⟨show k + 1 ≤ c by omega, rfl⟩
    | _ => exact ⟨hk, rfl⟩
  refine ⟨hnew, .inl ⟨rfl, hlimit.1, ?_, ?_⟩⟩
  · rw [hlimit.2]
    exact hqueue
  · exact hfronts.congr rfl rfl rfl rfl

theorem mem_dropLast_of_append {α : Type*} {l ws : List α} {a : α} {rest : List α}
    (h : l = ws ++ a :: rest) (hrest : rest ≠ []) : a ∈ l.dropLast := by
  rw [h, dropLast_append_of_ne_nil (cons_ne_nil _ _), dropLast_cons_of_ne_nil hrest]
  exact mem_append_right _ (.head _)

/-- A response is read: a failure ends the call. -/
theorem dequeue_eq_some {c : ℕ} {rank : Fin n} {mqs : List (Fin n)} {responses : List (Response R)}
    (h : s.dequeue ⟨c, rank :: mqs, responses⟩ = some s') :
    ∃ r rest, s.responses rank = r :: rest ∧
      ((∃ msg e, r.result = .error msg ∧ s' = MultiprocExecutor.complete { s with
        responses := update s.responses rank rest } c ⟨responses ++ [r], .error e⟩) ∨
      ∃ v, r.result = .ok v ∧ s' = { s with
        responses := update s.responses rank rest
        reading := some ⟨c, mqs, responses ++ [r]⟩ }) := by
  simp only [MultiprocExecutor.dequeue] at h
  cases hr : s.responses rank with
  | nil =>
    rw [hr] at h
    cases h
  | cons r rest =>
    rw [hr] at h
    dsimp only at h
    refine ⟨r, rest, rfl, ?_⟩
    cases hres : r.result with
    | error msg =>
      rw [hres] at h
      exact .inl ⟨msg, _, rfl, (some.inj h).symm⟩
    | ok v =>
      rw [hres] at h
      exact .inr ⟨v, rfl, (some.inj h).symm⟩

/-- One response is read, or the call has read all. -/
theorem Inv.dequeue (hs : Inv workers s k) {rd : Reading n R} (hreading : s.reading = some rd)
    (hstep : s.dequeue rd = some s') : ∃ k', Inv workers s' k' := by
  rcases hs.thread with ⟨hnone, -⟩ | ⟨rd', call, hrd, hcall, hreads, hqueue, hfronts⟩
  · rw [hreading] at hnone
    cases hnone
  obtain rfl : rd = rd' := some.inj (hreading.symm.trans hrd)
  obtain ⟨ws, hmqs, hresponses, hok⟩ := hreads.read
  have hhandled := hs.handled k call hcall
  obtain ⟨c, mqs, responses⟩ := rd
  obtain rfl : c = k := hreads.call_eq
  subst hresponses
  cases mqs with
  | nil =>
    rw [append_nil] at hmqs
    rw [MultiprocExecutor.dequeue, hcall] at hstep
    -- all responses have been read
    cases hstep
    have hsettled := hhandled.settled (hmqs ▸ hok)
    rw [hmqs] at hsettled
    refine ⟨_, Inv.complete hs.toCompleted hreading hcall hqueue s.responses ?_ hsettled⟩
    simpa using hfronts
  | cons rank mqs =>
    have hrank : rank ∈ call.responseMqs := hmqs ▸ mem_append_right _ (.head _)
    have haddr : Addressed s.calls rank c = true := by
      rw [Addressed, hcall, any_some]
      exact RpcCall.mem_responseMqs.1 hrank
    have hnotMem : rank ∉ mqs := by
      have hnodup := call.nodup_responseMqs
      rw [hmqs] at hnodup
      exact (nodup_cons.1 hnodup.of_append_right).1
    obtain ⟨r, rest, hr, hcase⟩ := dequeue_eq_some hstep
    obtain ⟨rfl, hfronts'⟩ := hfronts.dequeue hr (by simpa using haddr)
    have hfront : (if rank ∈ rank :: mqs then c else c + 1) = c := if_pos (.head _)
    rw [hfront] at hcase
    rcases hcase with ⟨msg, e, hfail, rfl⟩ | ⟨v, hv, rfl⟩
    · -- the failing worker is the last one
      obtain rfl : mqs = [] := by
        by_contra hne
        obtain ⟨v, hv⟩ := hhandled.last rank (mem_dropLast_of_append hmqs hne)
        rw [Workers.answer, hv] at hfail
        cases hfail
      refine ⟨_, Inv.complete hs.toCompleted hreading hcall hqueue _
        (hfronts'.skip fun w => .inl ?_) (settled_of_failure hmqs hfail)⟩
      by_cases hw : w = rank
      · rw [hw, update_self, hfront]
      · rw [update_of_ne hw, if_neg fun h => hw (mem_singleton.1 h)]
    · have hidle : s.control ≠ .idle := fun hc => by
        have hcontrol := hs.control
        rw [ControlOk, hc, hreading] at hcontrol
        cases hcontrol
      refine ⟨c, ⟨hs.handled, hs.control.congr hidle rfl rfl, hs.done_iff, hs.settled⟩,
        .inr ⟨_, call, rfl, hcall, ⟨rfl, ws ++ [rank], by rw [hmqs, append_assoc]; rfl, by simp,
          fun w hw => ?_⟩, hqueue, (hfronts'.skip fun w => .inl ?_).congr rfl rfl rfl rfl⟩⟩
      · rcases mem_append.1 hw with hw | hw
        · exact hok w hw
        · obtain rfl := mem_singleton.1 hw
          exact ⟨v, hv⟩
      · by_cases hw : w = rank
        · rw [hw, update_self, hfront, if_neg hnotMem]
        · rw [update_of_ne hw]
          simp [mem_cons, hw, false_or]

/-- The oldest pending future is popped. -/
theorem popFuture_spec (hqueue : s.futuresQueue.reverse = range' k (limit s - k)) :
    (limit s ≤ k ∧ s.popFuture = none ∧ s.futuresQueue = []) ∨
      k < limit s ∧ ∃ q : List ℕ, q.reverse = range' (k + 1) (limit s - (k + 1)) ∧
        s.popFuture = some (read { s with futuresQueue := q } k) := by
  rcases lt_or_ge k (limit s) with hlt | hle
  · rw [show limit s - k = limit s - (k + 1) + 1 by omega, range'_succ,
      reverse_eq_cons_iff] at hqueue
    refine .inr ⟨hlt, s.futuresQueue.dropLast, ?_, ?_⟩
    · rw [hqueue, dropLast_concat, reverse_reverse]
    · rw [popFuture, hqueue, getLast?_concat, dropLast_concat]
      rfl
  · rw [Nat.sub_eq_zero_of_le hle, range'_zero, reverse_eq_nil_iff] at hqueue
    exact .inl ⟨hle, by rw [popFuture, hqueue]; rfl, hqueue⟩

theorem Inv.advance (hs : Inv workers s k) (hstep : s.advance = some s') :
    ∃ k', Inv workers s' k' := by
  rw [MultiprocExecutor.advance] at hstep
  cases hreading : s.reading with
  | some rd =>
    rw [hreading] at hstep
    exact hs.dequeue hreading hstep
  | none =>
    obtain ⟨-, hk, hqueue, hfronts⟩ := hs.waits hreading
    have hcontrol := hs.control
    rw [hreading] at hstep
    cases hc : s.control with
    | idle =>
      rw [hc] at hstep
      cases hstep
    | indexError c =>
      rw [hc] at hstep
      cases hstep
    | calling c =>
      have hlimit : limit s = c := by rw [limit, hc]
      rw [ControlOk, hc] at hcontrol
      rw [hc] at hstep
      have hidle : s.control ≠ .idle := by rw [hc]; exact Control.noConfusion
      rcases popFuture_spec hqueue with ⟨hle, hpop, hnil⟩ | ⟨hlt, q, hq, hpop⟩
      · -- no future is pending: the blocking call itself is read
        rw [hpop] at hstep
        obtain rfl := some.inj hstep
        obtain rfl : k = c := by omega
        have := hs.read hidle hfronts (q := []) (by omega) (by
          rw [hlimit, Nat.sub_eq_zero_of_le (le_succ k)]
          rfl)
        rw [← hnil] at this
        exact ⟨k, this⟩
      · rw [hpop] at hstep
        obtain rfl := some.inj hstep
        exact ⟨k, hs.read hidle hfronts (by omega) hq⟩
    | awaiting c =>
      have hlimit : limit s = s.calls.length := by rw [limit, hc]
      rw [ControlOk, hc] at hcontrol
      rw [hc] at hstep
      dsimp only at hstep
      by_cases hdone : (s.done c).isSome = true
      · rw [if_pos hdone] at hstep
        obtain rfl := some.inj hstep
        refine ⟨k, ⟨hs.handled, rfl, hs.done_iff, hs.settled⟩, .inl ⟨rfl, ?_, ?_,
          hfronts.congr rfl rfl rfl rfl⟩⟩
        · show k ≤ s.calls.length
          omega
        · rw [hlimit] at hqueue
          exact hqueue
      · rw [if_neg hdone] at hstep
        rcases popFuture_spec hqueue with ⟨hle, -⟩ | ⟨hlt, q, hq, hpop⟩
        · exact absurd ((hs.done_iff c).2 (by omega)) hdone
        · rw [hpop] at hstep
          obtain rfl := some.inj hstep
          have hidle : s.control ≠ .idle := by rw [hc]; exact Control.noConfusion
          exact ⟨k, hs.read hidle hfronts (by omega) hq⟩

theorem Inv.collectiveRpc (hs : Inv workers s k) {call : RpcCall n R V}
    (hhandled : Handled workers s.calls.length call) (hstep : s.collectiveRpc call = some s') :
    Inv workers s' k := by
  rw [MultiprocExecutor.collectiveRpc] at hstep
  split_ifs at hstep with hidle hnonBlock
  all_goals
    have hreading : s.reading = none := by
      have := hs.control
      rwa [ControlOk, hidle] at this
    obtain ⟨-, hk, hqueue, hfronts⟩ := hs.waits hreading
    have hlimit : limit s = s.calls.length := by rw [limit, hidle]
    have hcalls : ∀ c call', (s.calls ++ [call])[c]? = some call' → Handled workers c call' :=
      fun c call' hc => by
        rcases lt_or_ge c s.calls.length with hlt | hge
        · rw [getElem?_append_left hlt] at hc
          exact hs.handled c call' hc
        · rw [getElem?_append_right hge] at hc
          obtain ⟨hlen, rfl⟩ := List.getElem?_eq_some_iff.1 hc
          obtain rfl : c = s.calls.length := by simp at hlen; omega
          simpa using hhandled
    have hsettled : ∀ c out, s.done c = some out →
        ∃ call', (s.calls ++ [call])[c]? = some call' ∧ Settled workers c call' out :=
      fun c out hout => by
        obtain ⟨call', hcall', hset⟩ := hs.settled c out hout
        refine ⟨call', ?_, hset⟩
        rw [getElem?_append_left (List.getElem?_eq_some_iff.1 hcall').1, hcall']
    obtain rfl := some.inj hstep
  · have hlimit' : limit { s with
        calls := s.calls ++ [call]
        futuresQueue := s.calls.length :: s.futuresQueue } = s.calls.length + 1 := by
      simp [limit, hidle]
    refine ⟨⟨hcalls, by rw [ControlOk, hidle]; exact hreading, hs.done_iff, hsettled⟩,
      .inl ⟨hreading, ?_, ?_, hfronts.append call (fun _ => by omega) rfl rfl rfl rfl⟩⟩
    · rw [hlimit']
      omega
    · rw [hlimit', reverse_cons, hqueue, hlimit,
        show s.calls.length + 1 - k = s.calls.length - k + 1 by omega, range'_concat, one_mul,
        show k + (s.calls.length - k) = s.calls.length by omega]
  · refine ⟨⟨hcalls, ?_, hs.done_iff, hsettled⟩, .inl ⟨hreading, hlimit ▸ hk, ?_,
      hfronts.append call (fun _ => by omega) rfl rfl rfl rfl⟩⟩
    · simp [ControlOk]
    · rw [hlimit] at hqueue
      exact hqueue

theorem Inv.awaitResult (hs : Inv workers s k) {c : ℕ} (hstep : s.awaitResult c = some s') :
    Inv workers s' k := by
  rw [MultiprocExecutor.awaitResult] at hstep
  split_ifs at hstep with h
  obtain rfl := some.inj hstep
  have hreading : s.reading = none := by
    have := hs.control
    rwa [ControlOk, h.1] at this
  obtain ⟨-, hk, hqueue, hfronts⟩ := hs.waits hreading
  have hlimit : limit s = s.calls.length := by rw [limit, h.1]
  rw [hlimit] at hk hqueue
  refine ⟨⟨hs.handled, ?_, hs.done_iff, hs.settled⟩, .inl ⟨hreading, hk, hqueue,
    hfronts.congr rfl rfl rfl rfl⟩⟩
  obtain ⟨call, hcall, -⟩ := (any_eq_true _ _).1 h.2
  exact (List.getElem?_eq_some_iff.1 hcall).1

/-- A call is handled when it is made. -/
def Admissible (workers : Workers n R) (s : MultiprocExecutor n R V) : Event n R V → Prop
  | .collectiveRpc call => Handled workers s.calls.length call
  | _ => True

theorem Inv.step (hs : Inv workers s k) {e : Event n R V} (hok : Admissible workers s e)
    (hstep : s.step workers e = some s') : ∃ k', Inv workers s' k' := by
  cases e with
  | consume rank => exact ⟨k, hs.worker (sameThread_of_consume hstep) fun _ h => h.consume hstep⟩
  | flush rank => exact ⟨k, hs.worker (sameThread_of_flush hstep) fun _ h => h.flush hstep⟩
  | collectiveRpc call => exact ⟨k, hs.collectiveRpc hok hstep⟩
  | awaitResult c => exact ⟨k, hs.awaitResult hstep⟩
  | advance => exact hs.advance hstep

/-- The states of the runs in which every call is handled. -/
inductive Run (workers : Workers n R) : MultiprocExecutor n R V → Prop
  | new : Run workers new
  | step {s s' : MultiprocExecutor n R V} {e : Event n R V} (hrun : Run workers s)
      (hok : Admissible workers s e) (hstep : s.step workers e = some s') : Run workers s'

theorem Run.inv (hrun : Run workers s) : ∃ k, Inv workers s k := by
  induction hrun with
  | new => exact ⟨0, inv_new⟩
  | step _ hok hstep ih =>
    obtain ⟨k, hs⟩ := ih
    exact hs.step hok hstep

theorem Run.moves (hrun : Run workers s) (events : List (Event n R V))
    (he : ∀ e ∈ events, ∀ call, e ≠ .collectiveRpc call)
    (h : events.foldlM (MultiprocExecutor.step workers) s = some s') : Run workers s' := by
  induction events generalizing s with
  | nil => exact some.inj h ▸ hrun
  | cons e events ih =>
    obtain ⟨s₁, hs₁, h⟩ := bind_eq_some_iff.1 h
    refine ih (hrun.step ?_ hs₁) (fun e' he' => he e' (.tail _ he')) h
    cases e with
    | collectiveRpc call => exact absurd rfl (he _ (.head _) call)
    | _ => trivial

/-! ### Waiting for the workers -/

/-- A worker takes a message, or passes an output on. -/
def WorkerMove (workers : Workers n R) (s s' : MultiprocExecutor n R V) : Prop :=
  ∃ rank, s.consume workers rank = some s' ∨ s.flush rank = some s'

theorem SameThread.trans {s'' : MultiprocExecutor n R V} (h : SameThread s s')
    (h' : SameThread s' s'') : SameThread s s'' :=
  ⟨h'.calls.trans h.calls, h'.futuresQueue.trans h.futuresQueue, h'.control.trans h.control,
    h'.reading.trans h.reading, h'.done.trans h.done⟩

/-- The workers come to answer a call that addresses them; by induction on the messages before
it. -/
theorem Fronts.exists_response {front : Fin n → ℕ} (rank : Fin n) :
    ∀ {d : ℕ} {s : MultiprocExecutor n R V}, Fronts workers s front →
      Addressed s.calls rank (front rank) = true → front rank + 1 - s.consumed rank = d →
      ∃ s', Relation.ReflTransGen (WorkerMove workers) s s' ∧ SameThread s s' ∧
        s'.responses rank ≠ [] := by
  intro d
  induction d using Nat.strong_induction_on with
  | _ d ih =>
    intro s h haddr hd
    by_cases hresponses : s.responses rank = []
    · cases hasync : s.asyncOutputs rank with
      | cons output outputs =>
        have hflush : s.flush rank = some { s with
            asyncOutputs := update s.asyncOutputs rank outputs
            responses := update s.responses rank (s.responses rank ++ [output]) } := by
          rw [MultiprocExecutor.flush, hasync]
        exact ⟨_, .single ⟨rank, .inr hflush⟩, sameThread_of_flush hflush, by simp⟩
      | nil =>
        have hle : s.consumed rank ≤ front rank := by
          by_contra hlt
          have := h.answered rank
          rw [hresponses, hasync, answers_cons (Nat.lt_of_not_le hlt) haddr] at this
          cases this
        have hcalls : front rank < s.calls.length := by
          obtain ⟨call, hcall, -⟩ := (any_eq_true _ _).1 haddr
          exact (List.getElem?_eq_some_iff.1 hcall).1
        obtain ⟨s₁, hs₁⟩ : ∃ s₁, s.consume workers rank = some s₁ := by
          rw [MultiprocExecutor.consume, getElem?_eq_getElem (by omega)]
          exact ⟨_, rfl⟩
        have hconsumed : s₁.consumed rank = s.consumed rank + 1 := by
          obtain ⟨call, -, rfl⟩ := map_eq_some_iff.1 hs₁
          split_ifs <;> exact update_self ..
        have hthread := sameThread_of_consume hs₁
        obtain ⟨s', hmoves, hsame, hne⟩ := ih (front rank + 1 - s₁.consumed rank) (by omega)
          (h.consume hs₁) (hthread.calls ▸ haddr) rfl
        exact ⟨s', .head ⟨rank, .inl hs₁⟩ hmoves, hthread.trans hsame, hne⟩
    · exact ⟨s, .refl, ⟨rfl, rfl, rfl, rfl, rfl⟩, hresponses⟩

/-- The executor's thread does not wait for ever. -/
theorem Inv.exists_advance (hs : Inv workers s k) (hidle : s.control ≠ .idle) :
    ∃ s' s'', Relation.ReflTransGen (WorkerMove workers) s s' ∧ s'.advance = some s'' := by
  rcases hs.thread with ⟨hreading, -⟩ | ⟨rd, call, hreading, hcall, hreads, -, hfronts⟩
  · refine ⟨s, ?_⟩
    have hcontrol := hs.control
    rw [MultiprocExecutor.advance, hreading]
    rw [ControlOk] at hcontrol
    cases hc : s.control with
    | idle => exact absurd hc hidle
    | indexError c =>
      rw [hc] at hcontrol
      exact hcontrol.elim
    | calling c => cases hpop : s.popFuture <;> exact ⟨_, .refl, rfl⟩
    | awaiting c =>
      dsimp only
      split_ifs
      · exact ⟨_, .refl, rfl⟩
      · cases hpop : s.popFuture <;> exact ⟨_, .refl, rfl⟩
  · obtain ⟨ws, hmqs, -⟩ := hreads.read
    cases hrd : rd.mqs with
    | nil =>
      refine ⟨s, s.complete k ⟨rd.responses, call.aggregate (values rd.responses)⟩, .refl, ?_⟩
      rw [MultiprocExecutor.advance, hreading]
      simp [MultiprocExecutor.dequeue, hrd, hreads.call_eq, hcall, map_some]
    | cons rank mqs =>
      rw [hrd] at hfronts hmqs
      have haddr : Addressed s.calls rank k = true := by
        rw [Addressed, hcall, any_some]
        exact RpcCall.mem_responseMqs.1 (hmqs ▸ mem_append_right _ (.head _))
      obtain ⟨s', hmoves, hsame, hne⟩ := hfronts.exists_response rank (by simpa using haddr) rfl
      obtain ⟨r, rest, hr⟩ := exists_cons_of_ne_nil hne
      refine ⟨s', ?_⟩
      rw [MultiprocExecutor.advance, hsame.reading, hreading]
      simp only [MultiprocExecutor.dequeue, hrd, hr]
      cases r.result <;> exact ⟨_, hmoves, rfl⟩

/-- Every call gets its own responses, in every run in which of the workers a call addresses only
the last one raises: a completed call has read what its workers answered to it, the queues hold
answers to pending calls only, no await finds the futures' queue empty, and no wait is for ever. -/
theorem own_responses (hrun : Run workers s) : (∀ c out, s.done c = some out →
      ∃ call, s.calls[c]? = some call ∧ Settled workers c call out) ∧
    (∀ w, ∀ r ∈ s.responses w, r.call < s.calls.length ∧ s.done r.call = none) ∧
    (∀ c, s.control ≠ .indexError c) ∧ (s.control ≠ .idle →
      ∃ s' s'', Relation.ReflTransGen (WorkerMove workers) s s' ∧ s'.advance = some s'') := by
  obtain ⟨k, hs⟩ := hrun.inv
  refine ⟨hs.settled, fun w r hr => ?_, fun c hc => ?_, hs.exists_advance⟩
  · have hnotDone : k ≤ r.call → s.done r.call = none := fun hle =>
      not_isSome_iff_eq_none.1 fun h => absurd ((hs.done_iff _).1 h) (not_lt.2 hle)
    rcases hs.thread with ⟨-, -, -, hfronts⟩ | ⟨rd, call, -, -, -, -, hfronts⟩
    all_goals
      have hmem := mem_answers (hfronts.answered w ▸ mem_append_left _ hr)
      have hle := hfronts.consumed_le w
    · exact ⟨by omega, hnotDone hmem.1⟩
    · refine ⟨by omega, hnotDone (le_trans ?_ hmem.1)⟩
      split_ifs
      · exact le_rfl
      · exact le_succ k
  · have := hs.control
    rw [ControlOk, hc] at this
    exact this

/-- A blocking call to all workers. -/
def blocking : RpcCall n R V := ⟨false, none, none⟩

/-- The given worker raises in call 0. -/
def failingWorkers (rank : Fin 2) : Workers 2 ℕ where
  useAsyncScheduling := false
  run := fun c w => if c = 0 ∧ w = rank then .error "out of memory" else .ok c

/-- Two blocking calls, the workers' moves before the reads. -/
def twoCalls (reads : ℕ) : List (Event 2 ℕ ℕ) :=
  [.collectiveRpc blocking, .consume 0, .consume 1] ++ List.replicate reads .advance ++
    [.collectiveRpc blocking, .consume 0, .consume 1, .advance, .advance, .advance, .advance]

/-- The last worker raises in the first call. -/
theorem own_responses_twoCalls : ∃ s : MultiprocExecutor 2 ℕ ℕ,
    (twoCalls 3).foldlM (step (failingWorkers 1)) new = some s ∧
    (s.done 0).map (fun out => out.result.toOption.isNone) = some true ∧
    ∀ c out, s.done c = some out →
      ∃ call, s.calls[c]? = some call ∧ Settled (failingWorkers 1) c call out := by
  have hfirst : Handled (failingWorkers 1) 0 (blocking : RpcCall 2 ℕ ℕ) := by
    refine ⟨fun w hw => ?_, nofun⟩
    obtain rfl : w = 0 := mem_singleton.1 hw
    exact ⟨0, rfl⟩
  have hsecond : Handled (failingWorkers 1) 1 (blocking : RpcCall 2 ℕ ℕ) :=
    ⟨fun w _ => ⟨1, rfl⟩, nofun⟩
  have hcall : Run (failingWorkers 1) _ :=
    .step .new (e := .collectiveRpc (blocking : RpcCall 2 ℕ ℕ)) hfirst rfl
  have hread := hcall.moves [.consume 0, .consume 1, .advance, .advance, .advance] (by simp) rfl
  have hcall' : Run (failingWorkers 1) _ := .step hread (e := .collectiveRpc blocking) hsecond rfl
  have hread' := hcall'.moves [.consume 0, .consume 1, .advance, .advance, .advance, .advance]
    (by simp) rfl
  exact ⟨_, rfl, rfl, (own_responses hread').1⟩

/-- The first worker raises in the first call: the second call uses what the other one answered to
the first. -/
theorem twoCalls_mixed :
    ¬ ∀ (workers : Workers 2 ℕ) (events : List (Event 2 ℕ ℕ)) (s : MultiprocExecutor 2 ℕ ℕ),
      events.foldlM (step workers) new = some s →
      ∀ c out, s.done c = some out → ∀ r ∈ out.used, r.call = c := by
  intro h
  have := h (failingWorkers 0) (twoCalls 2) _ rfl 1 ⟨[⟨1, .ok 1⟩, ⟨0, .ok 0⟩], .ok (.all [1, 0])⟩ rfl
    ⟨0, .ok 0⟩ (.tail _ (.head _))
  cases this

end LoptVllm.Executor
