import Havemind.AwaitCode

/-!
The calls an asynchronous function puts, in order, when each of its awaits is answered
as the outside allows. Code that puts a fixed list of the calls one keeps an eye on
composes along concatenation; a run that is stopped has put a first part of them.
-/
namespace Havemind.CallLogs

open AwaitCode List

variable {S : Signature} {α β E : Type}

variable (answer : E → (call : S.Call) → Except S.Error (S.Answer call))

/-- The calls put so far, and the value when one has been returned. -/
inductive Logs : Code S α → List S.Call → Option α → Prop
  | stopped {code} : Logs code [] none
  | ret {value} : Logs (.ret value) [] (some value)
  | read {next log result} (memory : S.Memory) : Logs (next memory) log result →
      Logs (.read next) log result
  | write {memory next log result} : Logs next log result → Logs (.write memory next) log result
  | await {call next log result} (event : E) : Logs (next (answer event call)) log result →
      Logs (.await call next) (call :: log) result

/-- The calls of the run whose awaits end like this, one after the other. -/
def logOf : Code S α → S.Memory → List E → List S.Call
  | .ret _, _, _ => []
  | .fail _, _, _ => []
  | .read next, m, events => logOf (next m) m events
  | .write m next, _, events => logOf next m events
  | .await _ _, _, [] => []
  | .await call next, m, event :: rest => call :: logOf (next (answer event call)) m rest

/-- All runs put these of the calls to keep, in this order, and return what `V` says. -/
def Puts (keep : S.Call → Bool) (calls : List S.Call) (V : α → Prop) (code : Code S α) : Prop :=
  ∀ log result, Logs answer code log result → log.filter keep <+: calls ∧
    ∀ value, result = some value → log.filter keep = calls ∧ V value

variable {answer} {keep : S.Call → Bool} {calls calls' : List S.Call} {V V' : α → Prop}
  {U : β → Prop} {code : Code S α} {f : α → Code S β}

theorem logs_logOf (code : Code S α) (m : S.Memory) (events : List E) :
    ∃ result, Logs answer code (logOf answer code m events) result := by
  induction code generalizing m events with
  | ret value => exact ⟨some value, .ret⟩
  | fail error => exact ⟨none, .stopped⟩
  | read next ih =>
    obtain ⟨result, h⟩ := ih m m events
    exact ⟨result, .read m h⟩
  | write memory next ih =>
    obtain ⟨result, h⟩ := ih memory events
    exact ⟨result, .write h⟩
  | await call next ih =>
    cases events with
    | nil => exact ⟨none, .stopped⟩
    | cons event rest =>
      obtain ⟨result, h⟩ := ih (answer event call) m rest
      exact ⟨result, .await event h⟩

/-- A run of two pieces of code ends in the first, or goes on with what it returned. -/
theorem Logs.bind {log : List S.Call} {result : Option β} (h : Logs answer (code >>= f) log result) :
    (Logs answer code log none ∧ result = none) ∨
    ∃ value front back, log = front ++ back ∧ Logs answer code front (some value) ∧
      Logs answer (f value) back result := by
  induction code generalizing log with
  | ret value => exact .inr ⟨value, [], log, rfl, .ret, h⟩
  | fail error =>
    cases h
    exact .inl ⟨.stopped, rfl⟩
  | read next ih =>
    cases h with
    | stopped => exact .inl ⟨.stopped, rfl⟩
    | read memory h =>
      rcases ih memory h with ⟨hstop, hnone⟩ | ⟨value, front, back, hlog, hfront, hback⟩
      · exact .inl ⟨.read memory hstop, hnone⟩
      · exact .inr ⟨value, front, back, hlog, .read memory hfront, hback⟩
  | write memory next ih =>
    cases h with
    | stopped => exact .inl ⟨.stopped, rfl⟩
    | write h =>
      rcases ih h with ⟨hstop, hnone⟩ | ⟨value, front, back, hlog, hfront, hback⟩
      · exact .inl ⟨.write hstop, hnone⟩
      · exact .inr ⟨value, front, back, hlog, .write hfront, hback⟩
  | await call next ih =>
    cases h with
    | stopped => exact .inl ⟨.stopped, rfl⟩
    | await event h =>
      rcases ih _ h with ⟨hstop, hnone⟩ | ⟨value, front, back, rfl, hfront, hback⟩
      · exact .inl ⟨.await event hstop, hnone⟩
      · exact .inr ⟨value, call :: front, back, rfl, .await event hfront, hback⟩

theorem Puts.bind (h : Puts answer keep calls V code)
    (hf : ∀ value, V value → Puts answer keep calls' U (f value)) :
    Puts answer keep (calls ++ calls') U (code >>= f) := by
  intro log result hlog
  rcases hlog.bind with ⟨hstop, rfl⟩ | ⟨value, front, back, rfl, hfront, hback⟩
  · exact ⟨(h log none hstop).1.trans (prefix_append calls calls'), nofun⟩
  · obtain ⟨-, hdone⟩ := h front _ hfront
    obtain ⟨hkept, hv⟩ := hdone value rfl
    obtain ⟨hfront, hend⟩ := hf value hv back result hback
    rw [filter_append, hkept]
    refine ⟨(prefix_append_right_inj calls).mpr hfront, fun value' hresult => ?_⟩
    obtain ⟨hrest, hu⟩ := hend value' hresult
    exact ⟨by rw [hrest], hu⟩

/-- Code that puts none of the calls, and what comes after. -/
theorem Puts.bind_nil (h : Puts answer keep [] V code)
    (hf : ∀ value, V value → Puts answer keep calls U (f value)) :
    Puts answer keep calls U (code >>= f) :=
  h.bind hf

/-- What comes after puts none of the calls. -/
theorem Puts.bind_last (h : Puts answer keep calls V code)
    (hf : ∀ value, V value → Puts answer keep [] U (f value)) :
    Puts answer keep calls U (code >>= f) := by
  have hboth := h.bind hf
  rwa [append_nil] at hboth

theorem Puts.pure {value : α} (hv : V value) : Puts answer keep [] V (Pure.pure value) := by
  intro log result hlog
  cases hlog with
  | stopped => exact ⟨ nil_prefix, nofun⟩
  | ret =>
    refine ⟨ nil_prefix, fun other hother => ⟨rfl, ?_⟩⟩
    cases hother
    exact hv

theorem Puts.throw {error : S.Error} : Puts answer keep calls V (Code.throw error) := by
  intro log result hlog
  cases hlog with
  | stopped => exact ⟨ nil_prefix, nofun⟩

theorem Puts.mono (h : Puts answer keep calls V code) (hv : ∀ value, V value → V' value) :
    Puts answer keep calls V' code := by
  intro log result hlog
  obtain ⟨hfront, hend⟩ := h log result hlog
  refine ⟨hfront, fun value hresult => ?_⟩
  obtain ⟨hkept, hvalue⟩ := hend value hresult
  exact ⟨hkept, hv value hvalue⟩

/-- An await, whatever it is answered. -/
theorem Puts.await {call : S.Call} {next : Except S.Error (S.Answer call) → Code S α}
    (h : ∀ event, Puts answer keep calls V (next (answer event call))) :
    Puts answer keep ([call].filter keep ++ calls) V (.await call next) := by
  intro log result hlog
  cases hlog with
  | stopped => exact ⟨ nil_prefix, nofun⟩
  | @await _ _ log _ event hrest =>
    obtain ⟨hfront, hend⟩ := h event log result hrest
    have hfilter : (call :: log).filter keep = [call].filter keep ++ log.filter keep :=
      filter_append [call] log
    rw [hfilter]
    refine ⟨(prefix_append_right_inj _).mpr hfront, fun value hresult => ?_⟩
    obtain ⟨hkept, hvalue⟩ := hend value hresult
    exact ⟨by rw [hkept], hvalue⟩

/-- A call one does not keep an eye on. -/
theorem Puts.call {call : S.Call} {V : S.Answer call → Prop} (hkeep : keep call = false)
    (hv : ∀ event value, answer event call = .ok value → V value) :
    Puts answer keep [] V (Code.call call) := by
  have hskip : [call].filter keep = [] := filter_cons_of_neg (by simp [hkeep])
  have hawait : Puts answer keep ([call].filter keep ++ []) V (Code.call call) := by
    refine Puts.await fun event => ?_
    cases hanswer : answer event call with
    | ok value => exact Puts.pure (hv event value hanswer)
    | error error => exact Puts.throw
  rwa [hskip] at hawait

theorem Puts.attempt {call : S.Call} (hkeep : keep call = true) :
    Puts answer keep [call] (fun _ => True) (Code.attempt call) := by
  have hone : [call].filter keep = [call] := filter_cons_of_pos hkeep
  have hawait : Puts answer keep ([call].filter keep ++ []) (fun _ => True) (Code.attempt call) :=
    Puts.await fun _ => Puts.pure trivial
  rwa [hone] at hawait

end Havemind.CallLogs
