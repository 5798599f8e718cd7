import Commission.Library.Interleaving
import Mathlib.Data.List.Basic

/-! `ServerThread::run` and `ServerThread::shutdown`, which `main_inner` calls while the server
thread may still be starting. The two threads share `stop_flag` and `io_ctx`, and whatever
`io_ctx` points to. -/
namespace Commission.ServerThread

open Interleaving

/-- An operation which waits in the `io_context`, with the connection its handler is for. -/
inductive Handler where
  | accept (connection : ℕ)
  | handshake (connection : ℕ)
  | read (connection : ℕ)
  deriving DecidableEq, Repr

/-- What matters here of `asio::io_context`. -/
structure IoContext where
  stopped : Bool := false
  pending : List Handler := []
  deriving DecidableEq, Repr

/-- A value of `io_ctx`. -/
inductive Pointer where
  | null
  | ioContext
  deriving DecidableEq, Repr

/-- Where `ServerThread::run` stands: before a statement, waiting in `io_context.run()`, in a
handler which that calls, or at the end. An exception first leaves the `try` block, whose local
variables it destroys, and then comes to the `catch` block. -/
inductive ServerPc where
  | construct
  | store
  | resolve
  | listen
  | enter
  | loop
  | handling (handler : Handler)
  | clear
  | destroy
  | exited
  | unwinding
  | caught
  | aborted
  deriving DecidableEq, Repr

/-- Where `main_inner` stands, from the return of the constructor on. -/
inductive MainPc where
  | work
  | load
  | test (ctx : Pointer)
  | join
  | returned
  deriving DecidableEq, Repr

structure State where
  server : ServerPc
  main : MainPc
  stopFlag : Bool
  ioCtx : Pointer
  /-- The local variable of `run`, during its lifetime. -/
  context : Option IoContext
  connections : ℕ
  /-- `stop()` was called on an `io_context` outside of its lifetime. -/
  misused : Bool
  deriving DecidableEq, Repr

/-- The constructor has started the thread. -/
def initial : State where
  server := .construct
  main := .work
  stopFlag := false
  ioCtx := .null
  context := none
  connections := 0
  misused := false

/-- The next step is that of the main thread, a statement of `run`, the choice of the handler
whose operation is complete, the end of a handler, an exception, or a resolution which finds no
endpoint. -/
inductive Event where
  | main
  | server
  | dispatch (i : ℕ)
  | finish (error : Bool)
  | throw
  | abort
  deriving DecidableEq, Repr

/-- The operations which a handler starts: `handle_accept`, `handle_handshake` (where an error
is a handshake other than `net_handshake`) and `handle_read`. -/
def Handler.starts (connections : ℕ) (error : Bool) : Handler → List Handler
  | .accept connection =>
      (if error then [] else [.handshake connection]) ++ [.accept connections]
  | .handshake connection => if error then [] else [.read connection]
  | .read connection => if error then [] else [.read connection]

/-- The connections which a handler creates, in `start_accept`. -/
def Handler.creates : Handler → ℕ
  | .accept _ => 1
  | .handshake _ | .read _ => 0

/-- The statements of `ServerThread::run`. `io_context.run()` returns if the context was stopped
or has nothing to wait for. The way of an exception does not pass the second store. -/
def serverStep (s : State) : Option State :=
  match s.server with
  | .construct => some { s with server := .store, context := some {} }
  | .store => some { s with server := .resolve, ioCtx := .ioContext }
  | .resolve => some { s with server := .listen }
  | .listen =>
      some { s with
        server := .enter
        context := s.context.map fun ctx =>
          { ctx with pending := ctx.pending ++ [.accept s.connections] }
        connections := s.connections + 1 }
  | .enter => some { s with server := .loop }
  | .loop =>
      s.context.bind fun ctx =>
        if ctx.stopped ∨ ctx.pending = [] then some { s with server := .clear } else none
  | .clear => some { s with server := .destroy, ioCtx := .null }
  | .destroy => some { s with server := .exited, context := none }
  | .unwinding => some { s with server := .caught, context := none }
  | .caught => some { s with server := .aborted }
  | .handling _ | .exited | .aborted => none

/-- `io_context.run()` calls a handler, unless the context was stopped. -/
def dispatchStep (s : State) (i : ℕ) : Option State :=
  match s.server, s.context with
  | .loop, some ctx =>
      if ctx.stopped then none
      else ctx.pending[i]?.map fun handler =>
        { s with
          server := .handling handler
          context := some { ctx with pending := ctx.pending.eraseIdx i } }
  | _, _ => none

def finishStep (s : State) (error : Bool) : Option State :=
  match s.server with
  | .handling handler =>
      some { s with
        server := .loop
        context := s.context.map fun ctx =>
          { ctx with pending := ctx.pending ++ handler.starts s.connections error }
        connections := s.connections + handler.creates }
  | _ => none

/-- An exception of the `try` block. -/
def throwStep (s : State) : Option State :=
  match s.server with
  | .construct | .resolve | .listen | .handling _ => some { s with server := .unwinding }
  | _ => none

/-- "Resolution failed", with `std::abort` on the spot. -/
def abortStep (s : State) : Option State :=
  match s.server with
  | .resolve => some { s with server := .aborted }
  | _ => none

/-- `main_inner`: `shutdown()` at some time, and `join()`. -/
def mainStep (s : State) : Option State :=
  match s.main with
  | .work => some { s with main := .load, stopFlag := true }
  | .load => some { s with main := .test s.ioCtx }
  | .test .null => some { s with main := .join }
  | .test .ioContext =>
      some { s with
        main := .join
        context := s.context.map fun ctx => { ctx with stopped := true }
        misused := s.misused || s.context.isNone }
  | .join => if s.server = .exited then some { s with main := .returned } else none
  | .returned => none

/-- One step of the two threads. `std::abort` ends both. -/
def step (s : State) : Event → Option State
  | .main => if s.server = .aborted then none else mainStep s
  | .server => serverStep s
  | .dispatch i => dispatchStep s i
  | .finish error => finishStep s error
  | .throw => throwStep s
  | .abort => abortStep s

/-- Every step there is. -/
inductive Moves (s : State) : Event → State → Prop where
  | construct (hPc : s.server = .construct) :
      Moves s .server { s with server := .store, context := some {} }
  | store (hPc : s.server = .store) :
      Moves s .server { s with server := .resolve, ioCtx := .ioContext }
  | resolve (hPc : s.server = .resolve) : Moves s .server { s with server := .listen }
  | listen (hPc : s.server = .listen) :
      Moves s .server { s with
        server := .enter
        context := s.context.map fun ctx =>
          { ctx with pending := ctx.pending ++ [.accept s.connections] }
        connections := s.connections + 1 }
  | enter (hPc : s.server = .enter) : Moves s .server { s with server := .loop }
  | leave {ctx : IoContext} (hPc : s.server = .loop) (hContext : s.context = some ctx)
      (hLeave : ctx.stopped = true ∨ ctx.pending = []) : Moves s .server { s with server := .clear }
  | clear (hPc : s.server = .clear) :
      Moves s .server { s with server := .destroy, ioCtx := .null }
  | destroy (hPc : s.server = .destroy) :
      Moves s .server { s with server := .exited, context := none }
  | unwind (hPc : s.server = .unwinding) :
      Moves s .server { s with server := .caught, context := none }
  | handle (hPc : s.server = .caught) : Moves s .server { s with server := .aborted }
  | dispatch {ctx : IoContext} {i : ℕ} {handler : Handler} (hPc : s.server = .loop)
      (hContext : s.context = some ctx) (hRuns : ctx.stopped = false)
      (hHandler : ctx.pending[i]? = some handler) :
      Moves s (.dispatch i) { s with
        server := .handling handler
        context := some { ctx with pending := ctx.pending.eraseIdx i } }
  | finish {handler : Handler} (error : Bool) (hPc : s.server = .handling handler) :
      Moves s (.finish error) { s with
        server := .loop
        context := s.context.map fun ctx =>
          { ctx with pending := ctx.pending ++ handler.starts s.connections error }
        connections := s.connections + handler.creates }
  | throw (hPc : s.server = .construct ∨ s.server = .resolve ∨ s.server = .listen ∨
      ∃ handler, s.server = .handling handler) : Moves s .throw { s with server := .unwinding }
  | abort (hPc : s.server = .resolve) : Moves s .abort { s with server := .aborted }
  | work (hAlive : s.server ≠ .aborted) (hMain : s.main = .work) :
      Moves s .main { s with main := .load, stopFlag := true }
  | load (hAlive : s.server ≠ .aborted) (hMain : s.main = .load) :
      Moves s .main { s with main := .test s.ioCtx }
  | skip (hAlive : s.server ≠ .aborted) (hMain : s.main = .test .null) :
      Moves s .main { s with main := .join }
  | stop (hAlive : s.server ≠ .aborted) (hMain : s.main = .test .ioContext) :
      Moves s .main { s with
        main := .join
        context := s.context.map fun ctx => { ctx with stopped := true }
        misused := s.misused || s.context.isNone }
  | join (hAlive : s.server ≠ .aborted) (hMain : s.main = .join) (hExited : s.server = .exited) :
      Moves s .main { s with main := .returned }

theorem moves_of_main {s s' : State} (h : step s .main = some s') : Moves s .main s' := by
  rw [step] at h
  split at h
  · cases h
  next hAlive =>
    rw [mainStep.eq_def] at h
    split at h
    next hMain =>
      cases h
      exact .work hAlive hMain
    next hMain =>
      cases h
      exact .load hAlive hMain
    next hMain =>
      cases h
      exact .skip hAlive hMain
    next hMain =>
      cases h
      exact .stop hAlive hMain
    next hMain =>
      rw [Option.ite_none_right_eq_some] at h
      cases h.2
      exact .join hAlive hMain h.1
    next => cases h

theorem moves_of_server {s s' : State} (h : step s .server = some s') : Moves s .server s' := by
  rw [step, serverStep.eq_def] at h
  split at h
  next hPc =>
    cases h
    exact .construct hPc
  next hPc =>
    cases h
    exact .store hPc
  next hPc =>
    cases h
    exact .resolve hPc
  next hPc =>
    cases h
    exact .listen hPc
  next hPc =>
    cases h
    exact .enter hPc
  next hPc =>
    obtain ⟨ctx, hContext, hLeave⟩ := Option.bind_eq_some_iff.mp h
    rw [Option.ite_none_right_eq_some] at hLeave
    cases hLeave.2
    exact .leave hPc hContext hLeave.1
  next hPc =>
    cases h
    exact .clear hPc
  next hPc =>
    cases h
    exact .destroy hPc
  next hPc =>
    cases h
    exact .unwind hPc
  next hPc =>
    cases h
    exact .handle hPc
  next => cases h
  next => cases h
  next => cases h

theorem moves_of_step {s s' : State} {event : Event} (h : step s event = some s') :
    Moves s event s' := by
  cases event with
  | main => exact moves_of_main h
  | server => exact moves_of_server h
  | dispatch i =>
      rw [step, dispatchStep.eq_def] at h
      split at h
      next ctx hPc hContext =>
        rw [Option.ite_none_left_eq_some] at h
        obtain ⟨hRuns, hMap⟩ := h
        obtain ⟨handler, hHandler, rfl⟩ := Option.map_eq_some_iff.mp hMap
        exact .dispatch hPc hContext (Bool.eq_false_iff.mpr hRuns) hHandler
      next => cases h
  | finish error =>
      rw [step, finishStep.eq_def] at h
      split at h
      next handler hPc =>
        cases h
        exact .finish error hPc
      next => cases h
  | throw =>
      rw [step, throwStep.eq_def] at h
      split at h
      next hPc =>
        cases h
        exact .throw (.inl hPc)
      next hPc =>
        cases h
        exact .throw (.inr (.inl hPc))
      next hPc =>
        cases h
        exact .throw (.inr (.inr (.inl hPc)))
      next handler hPc =>
        cases h
        exact .throw (.inr (.inr (.inr ⟨handler, hPc⟩)))
      next => cases h
  | abort =>
      rw [step, abortStep.eq_def] at h
      split at h
      next hPc =>
        cases h
        exact .abort hPc
      next => cases h

/-! What holds in every run. -/

namespace ServerPc

/-- `run` has not stored `io_ctx` yet. -/
def BeforeStore (pc : ServerPc) : Prop := pc = .construct ∨ pc = .store

/-- `io_context.run()` is running. -/
def InLoop (pc : ServerPc) : Prop := pc = .loop ∨ ∃ handler, pc = .handling handler

/-- `io_context.run()` has returned. -/
def AfterLoop (pc : ServerPc) : Prop := pc = .clear ∨ pc = .destroy ∨ pc = .exited

/-- An exception is on its way to `std::abort`, or `std::abort` was called. -/
def Failed (pc : ServerPc) : Prop := pc = .unwinding ∨ pc = .caught ∨ pc = .aborted

end ServerPc

/-- `shutdown()` has returned. -/
def MainPc.AfterShutdown (main : MainPc) : Prop := main = .join ∨ main = .returned

/-- An accept is pending. -/
def IoContext.Accepts (ctx : IoContext) : Prop := ∃ connection, .accept connection ∈ ctx.pending

/-- The variables of `run` while it stands at `pc`. -/
def Holds (s : State) : ServerPc → Prop
  | .construct => s.ioCtx = .null ∧ s.context = none
  | .store => s.ioCtx = .null ∧ ∃ ctx, s.context = some ctx
  | .resolve | .listen => ∃ ctx, s.context = some ctx
  | .enter | .loop => ∃ ctx, s.context = some ctx ∧ ctx.Accepts
  | .handling handler =>
      ∃ ctx, s.context = some ctx ∧ ((∃ connection, handler = .accept connection) ∨ ctx.Accepts)
  | .clear | .destroy | .exited => s.main.AfterShutdown
  -- What is thrown before the store leaves no context behind, and later throws find one.
  | .unwinding => s.ioCtx = .null ∨ ∃ ctx, s.context = some ctx
  | .caught => s.context = none
  | .aborted => True

structure Inv (s : State) : Prop where
  holds : Holds s s.server
  /-- The context is stopped by `shutdown()` only. -/
  stopped : ∀ ctx, s.context = some ctx → ctx.stopped = true → s.main.AfterShutdown
  /-- Until the main thread uses the pointer which it has loaded, nobody replaces it. -/
  loaded : s.main = .test .ioContext → s.ioCtx = .ioContext
  /-- The pointer is there from the store until the loop has ended. -/
  published : ¬s.server.BeforeStore → ¬s.server.AfterLoop → ¬s.server.Failed →
    s.ioCtx = .ioContext

theorem inv_initial : Inv initial := by
  constructor
  · exact ⟨rfl, rfl⟩
  · intro ctx hContext
    cases hContext
  · intro hMain
    cases hMain
  · intro hStored
    exact absurd (.inl rfl) hStored

variable {s s' : State} {event : Event}

theorem MainPc.not_afterShutdown_load : ¬MainPc.AfterShutdown .load := by
  rintro (h | h) <;> cases h

theorem MainPc.not_afterShutdown_test (ctx : Pointer) : ¬MainPc.AfterShutdown (.test ctx) := by
  rintro (h | h) <;> cases h

theorem IoContext.Accepts.of_pending {ctx ctx' : IoContext} (h : ctx.Accepts)
    (hPending : ctx'.pending = ctx.pending) : ctx'.Accepts := by
  obtain ⟨connection, hMem⟩ := h
  exact ⟨connection, hPending ▸ hMem⟩

/-- The variables of `run` outlast what the main thread does. -/
theorem Holds.mono {pc : ServerPc} {change : IoContext → IoContext} (hHolds : Holds s pc)
    (hIoCtx : s'.ioCtx = s.ioCtx) (hContext : s'.context = s.context.map change)
    (hChange : ∀ ctx, (change ctx).pending = ctx.pending)
    (hMain : s.main.AfterShutdown → s'.main.AfterShutdown) : Holds s' pc := by
  have hAfter : ∀ ctx, s.context = some ctx → s'.context = some (change ctx) := by
    intro ctx hSome
    rw [hContext, hSome]
    rfl
  cases pc with
  | construct =>
      refine ⟨hIoCtx.trans hHolds.1, ?_⟩
      rw [hContext, hHolds.2]
      rfl
  | store =>
      obtain ⟨hNull, ctx, hSome⟩ := hHolds
      exact ⟨hIoCtx.trans hNull, change ctx, hAfter ctx hSome⟩
  | resolve | listen =>
      obtain ⟨ctx, hSome⟩ := hHolds
      exact ⟨change ctx, hAfter ctx hSome⟩
  | enter | loop =>
      obtain ⟨ctx, hSome, hAccepts⟩ := hHolds
      exact ⟨change ctx, hAfter ctx hSome, hAccepts.of_pending (hChange ctx)⟩
  | handling handler =>
      obtain ⟨ctx, hSome, hAccepts⟩ := hHolds
      exact ⟨change ctx, hAfter ctx hSome, hAccepts.imp_right fun h => h.of_pending (hChange ctx)⟩
  | clear | destroy | exited => exact hMain hHolds
  | unwinding =>
      obtain hNull | ⟨ctx, hSome⟩ := hHolds
      · exact .inl (hIoCtx.trans hNull)
      · exact .inr ⟨change ctx, hAfter ctx hSome⟩
  | caught =>
      have hNone : s.context = none := hHolds
      rw [Holds, hContext, hNone]
      rfl
  | aborted => trivial

/-- What the main thread does with its own variables. -/
theorem Holds.of_main {pc : ServerPc} {main : MainPc} {stopFlag : Bool} (hHolds : Holds s pc)
    (hMain : s.main.AfterShutdown → main.AfterShutdown) :
    Holds { s with main, stopFlag } pc :=
  hHolds.mono rfl Option.map_id'.symm (fun _ => rfl) hMain

theorem Holds.exists_context {pc : ServerPc} (hHolds : Holds s pc) (hStored : ¬pc.BeforeStore)
    (hLeft : ¬pc.AfterLoop) (hAlive : ¬pc.Failed) : ∃ ctx, s.context = some ctx := by
  cases pc with
  | construct => exact absurd (.inl rfl) hStored
  | store => exact absurd (.inr rfl) hStored
  | resolve | listen => exact hHolds
  | enter | loop | handling handler =>
      obtain ⟨ctx, hSome, -⟩ := hHolds
      exact ⟨ctx, hSome⟩
  | clear => exact absurd (.inl rfl) hLeft
  | destroy => exact absurd (.inr (.inl rfl)) hLeft
  | exited => exact absurd (.inr (.inr rfl)) hLeft
  | unwinding => exact absurd (.inl rfl) hAlive
  | caught => exact absurd (.inr (.inl rfl)) hAlive
  | aborted => exact absurd (.inr (.inr rfl)) hAlive

theorem Holds.accepts {ctx : IoContext} (hHolds : Holds s .loop) (hContext : s.context = some ctx) :
    ctx.Accepts := by
  obtain ⟨ctx', hSome, hAccepts⟩ := hHolds
  obtain rfl : ctx = ctx' := Option.some_inj.mp (hContext.symm.trans hSome)
  exact hAccepts

/-- The accept keeps `io_context.run()` from returning before the context is stopped. -/
theorem IoContext.Accepts.stopped {ctx : IoContext} (h : ctx.Accepts)
    (hLeave : ctx.stopped = true ∨ ctx.pending = []) : ctx.stopped = true := by
  obtain ⟨connection, hMem⟩ := h
  exact hLeave.resolve_right (List.ne_nil_of_mem hMem)

theorem Inv.ioCtx_of_beforeStore (hInv : Inv s) (hBefore : s.server.BeforeStore) :
    s.ioCtx = .null := by
  have hHolds := hInv.holds
  obtain hPc | hPc := hBefore
  · rw [hPc] at hHolds
    exact hHolds.1
  · rw [hPc] at hHolds
    exact hHolds.1

/-- The loop ends for `shutdown()` only. -/
theorem Inv.afterShutdown_of_afterLoop (hInv : Inv s) (hLeft : s.server.AfterLoop) :
    s.main.AfterShutdown := by
  have hHolds := hInv.holds
  obtain hPc | hPc | hPc := hLeft
  · rw [hPc] at hHolds
    exact hHolds
  · rw [hPc] at hHolds
    exact hHolds
  · rw [hPc] at hHolds
    exact hHolds

/-- A pointer which `shutdown()` has loaded is there after the store only. -/
theorem Inv.not_beforeStore_of_test (hInv : Inv s) (hMain : s.main = .test .ioContext) :
    ¬s.server.BeforeStore := by
  intro hBefore
  cases (hInv.loaded hMain).symm.trans (hInv.ioCtx_of_beforeStore hBefore)

/-- The pointer which `shutdown()` has loaded is that of a live context, unless an exception has
just destroyed it. -/
theorem Inv.context_of_test (hInv : Inv s) (hAlive : s.server ≠ .aborted)
    (hCatch : s.server ≠ .caught) (hMain : s.main = .test .ioContext) :
    ∃ ctx, s.context = some ctx := by
  by_cases hUnwinding : s.server = .unwinding
  · have hHolds := hInv.holds
    rw [hUnwinding] at hHolds
    apply hHolds.resolve_left
    rw [hInv.loaded hMain]
    nofun
  · apply hInv.holds.exists_context (hInv.not_beforeStore_of_test hMain)
    · intro hLeft
      have hAfter := hInv.afterShutdown_of_afterLoop hLeft
      rw [hMain] at hAfter
      exact MainPc.not_afterShutdown_test _ hAfter
    · rintro (hPc | hPc | hPc)
      · exact hUnwinding hPc
      · exact hCatch hPc
      · exact hAlive hPc

theorem Inv.context_of_inLoop (hInv : Inv s) (hLoop : s.server.InLoop) :
    ∃ ctx, s.context = some ctx := by
  apply hInv.holds.exists_context <;>
    grind [ServerPc.InLoop, ServerPc.BeforeStore, ServerPc.AfterLoop, ServerPc.Failed]

theorem Inv.published_of_inLoop (hInv : Inv s) (hLoop : s.server.InLoop) :
    s.ioCtx = .ioContext := by
  apply hInv.published <;>
    grind [ServerPc.InLoop, ServerPc.BeforeStore, ServerPc.AfterLoop, ServerPc.Failed]

/-- After `dispatch` the accept is still pending, unless it is the operation taken. -/
theorem IoContext.Accepts.dispatch {ctx : IoContext} {i : ℕ} {handler : Handler}
    (h : ctx.Accepts) (hHandler : ctx.pending[i]? = some handler) :
    (∃ connection, handler = .accept connection) ∨
      IoContext.Accepts { ctx with pending := ctx.pending.eraseIdx i } := by
  obtain ⟨connection, hMem⟩ := h
  obtain ⟨j, hj⟩ := List.mem_iff_getElem?.mp hMem
  by_cases hTaken : j = i
  · subst hTaken
    exact .inl ⟨connection, Option.some_inj.mp (hHandler.symm.trans hj)⟩
  · exact .inr ⟨connection, List.mem_eraseIdx_iff_getElem?.mpr ⟨j, hTaken, hj⟩⟩

/-- `handle_accept` ends with the next accept, and the other handlers leave it pending. -/
theorem IoContext.Accepts.finish {ctx : IoContext} {handler : Handler} (connections : ℕ)
    (error : Bool) (h : (∃ connection, handler = .accept connection) ∨ ctx.Accepts) :
    IoContext.Accepts { ctx with pending := ctx.pending ++ handler.starts connections error } := by
  obtain ⟨connection, rfl⟩ | ⟨connection, hMem⟩ := h
  · refine ⟨connections, ?_⟩
    simp [Handler.starts]
  · exact ⟨connection, List.mem_append_left _ hMem⟩

/-- The steps of the main thread. -/
theorem Inv.main_step (hInv : Inv s) (h : Moves s .main s') : Inv s' := by
  obtain ⟨hHolds, hStopped, hLoaded, hPublished⟩ := hInv
  cases h with
  | work hAlive hMain =>
      have hMono : s.main.AfterShutdown → MainPc.AfterShutdown .load := by
        rw [hMain]
        rintro (h | h) <;> cases h
      refine ⟨hHolds.of_main hMono, ?_, ?_, hPublished⟩
      · intro ctx hContext hStop
        exact hMono (hStopped ctx hContext hStop)
      · intro hTest
        cases hTest
  | load hAlive hMain =>
      have hMono : s.main.AfterShutdown → MainPc.AfterShutdown (.test s.ioCtx) := by
        rw [hMain]
        exact fun hAfter => absurd hAfter MainPc.not_afterShutdown_load
      refine ⟨hHolds.of_main hMono, ?_, ?_, hPublished⟩
      · intro ctx hContext hStop
        exact hMono (hStopped ctx hContext hStop)
      · intro hTest
        exact MainPc.test.inj hTest
  | skip hAlive hMain =>
      refine ⟨hHolds.of_main fun _ => .inl rfl, ?_, ?_, hPublished⟩
      · intro _ _ _
        exact .inl rfl
      · intro hTest
        cases hTest
  | stop hAlive hMain =>
      refine ⟨hHolds.mono rfl rfl (fun _ => rfl) fun _ => .inl rfl, ?_, ?_, hPublished⟩
      · intro _ _ _
        exact .inl rfl
      · intro hTest
        cases hTest
  | join hAlive hMain hExited =>
      refine ⟨hHolds.of_main fun _ => .inr rfl, ?_, ?_, hPublished⟩
      · intro _ _ _
        exact .inr rfl
      · intro hTest
        cases hTest

/-- An exception of the constructor of `io_context` finds no pointer, and every other one finds a
context. -/
theorem Inv.holds_unwinding (hInv : Inv s) (hPc : s.server = .construct ∨ s.server = .resolve ∨
    s.server = .listen ∨ ∃ handler, s.server = .handling handler) : Holds s .unwinding := by
  have hHolds := hInv.holds
  obtain hPc | hPc | hPc | ⟨handler, hPc⟩ := hPc
  · rw [hPc] at hHolds
    exact .inl hHolds.1
  · rw [hPc] at hHolds
    exact .inr hHolds
  · rw [hPc] at hHolds
    exact .inr hHolds
  · rw [hPc] at hHolds
    obtain ⟨ctx, hContext, -⟩ := hHolds
    exact .inr ⟨ctx, hContext⟩

/-- The steps of the server thread. -/
theorem Inv.server_step (hInv : Inv s) (hEvent : event ≠ .main) (h : Moves s event s') :
    Inv s' := by
  have hInLoop := hInv.published_of_inLoop
  have hUnwinding := hInv.holds_unwinding
  obtain ⟨hHolds, hStopped, hLoaded, hPublished⟩ := hInv
  cases h with
  | work | load | skip | stop | join => exact absurd rfl hEvent
  | construct hPc | store hPc | resolve hPc | enter hPc | destroy hPc | unwind hPc | handle hPc
  | abort hPc =>
      constructor <;> grind [Holds, ServerPc.BeforeStore, ServerPc.AfterLoop, ServerPc.Failed]
  | throw hPc =>
      refine ⟨hUnwinding hPc, hStopped, hLoaded, ?_⟩
      intro _ _ hAlive
      exact absurd (.inl rfl) hAlive
  | clear hPc =>
      rw [hPc] at hHolds
      refine ⟨hHolds, hStopped, ?_, ?_⟩
      · intro hMain
        have hAfter : s.main.AfterShutdown := hHolds
        rw [hMain] at hAfter
        exact absurd hAfter (MainPc.not_afterShutdown_test _)
      · intro _ hLeft
        exact absurd (.inr (.inl rfl)) hLeft
  | listen hPc =>
      constructor <;>
        grind [Holds, ServerPc.BeforeStore, ServerPc.AfterLoop, ServerPc.Failed,
          IoContext.Accepts]
  | @leave ctx hPc hContext hLeave =>
      rw [hPc] at hHolds
      have hStop := (hHolds.accepts hContext).stopped hLeave
      refine ⟨hStopped ctx hContext hStop, hStopped, hLoaded, ?_⟩
      intro _ hLeft
      exact absurd (.inl rfl) hLeft
  | @dispatch ctx i handler hPc hContext hRuns hHandler =>
      rw [hPc] at hHolds
      refine ⟨⟨_, rfl, (hHolds.accepts hContext).dispatch hHandler⟩, ?_, hLoaded, ?_⟩
      · intro _ hSome hStop
        cases hSome
        exact hStopped ctx hContext hStop
      · intro _ _ _
        exact hInLoop (.inl hPc)
  | @finish handler error hPc =>
      rw [hPc] at hHolds
      obtain ⟨ctx, hContext, hAccepts⟩ := hHolds
      simp only [hContext, Option.map_some]
      refine ⟨⟨_, rfl, .finish s.connections error hAccepts⟩, ?_, hLoaded, ?_⟩
      · intro _ hSome hStop
        cases hSome
        exact hStopped ctx hContext hStop
      · intro _ _ _
        exact hInLoop (.inr ⟨handler, hPc⟩)

theorem Inv.step (hInv : Inv s) (h : step s event = some s') : Inv s' := by
  have hMoves := moves_of_step h
  by_cases hEvent : event = .main
  · subst hEvent
    exact hInv.main_step hMoves
  · exact hInv.server_step hEvent hMoves

/-! What `shutdown()` reaches. -/

/-- The event loop runs, and nobody has told it to stop. -/
def RunsUnstopped (s : State) : Prop :=
  s.server.InLoop ∧ ∃ ctx, s.context = some ctx ∧ ctx.stopped = false

/-- The event loop is in `io_context.run()` or can still enter it, with the context not
stopped. -/
def CanRunUnstopped (s : State) : Prop :=
  ∃ events s', run step s events = some s' ∧ RunsUnstopped s'

/-- `run` can come to its end. -/
def CanExit (s : State) : Prop :=
  ∃ events s', run step s events = some s' ∧ s'.server = .exited

/-- What a shutdown of the server promises in a state. -/
structure Safe (s : State) : Prop where
  reaches : s.main.AfterShutdown → ¬CanRunUnstopped s
  alive : s.misused = false
  joins : s.main = .join → ¬s.server.Failed → CanExit s

/-- `shutdown()` loads `io_ctx` after `run` has stored it. -/
def LoadsAfterStore (s : State) (event : Event) : Prop :=
  event = .main → s.main = .load → ¬s.server.BeforeStore

/-- `shutdown()` does not come to `ctx->stop()` while the `catch` block of `run` is on its way to
`std::abort`. -/
def StopsBeforeCatch (s : State) (event : Event) : Prop :=
  event = .main → s.main = .test .ioContext → s.server ≠ .caught

/-! A `stop()` after an exception. -/

theorem misused_of_step (hInv : Inv s) (hStops : StopsBeforeCatch s event)
    (h : step s event = some s') : s'.misused = s.misused := by
  cases moves_of_step h with
  | stop hAlive hMain =>
      obtain ⟨ctx, hContext⟩ := hInv.context_of_test hAlive (hStops rfl hMain) hMain
      simp [hContext]
  | construct | store | resolve | listen | enter | leave | clear | destroy | unwind | handle
  | dispatch | finish | throw | abort | work | load | skip | join => rfl

theorem misused_of_not_stops (hInv : Inv s) (hStops : ¬StopsBeforeCatch s event)
    (h : step s event = some s') : s'.misused = true := by
  simp only [StopsBeforeCatch, Classical.not_imp, not_not] at hStops
  obtain ⟨rfl, hMain, hPc⟩ := hStops
  have hHolds := hInv.holds
  rw [hPc] at hHolds
  have hNone : s.context = none := hHolds
  cases moves_of_step h with
  | stop => simp [hNone]
  | work _ hMain' | load _ hMain' | skip _ hMain' | join _ hMain' =>
      cases hMain.symm.trans hMain'

theorem misused_mono (hMisused : s.misused = true) (h : step s event = some s') :
    s'.misused = true := by
  cases moves_of_step h with
  | stop => simp [hMisused]
  | construct | store | resolve | listen | enter | leave | clear | destroy | unwind | handle
  | dispatch | finish | throw | abort | work | load | skip | join => exact hMisused

theorem inv_of_run {events : List Event} (hInv : Inv s) (hRun : run step s events = some s') :
    Inv s' :=
  run_invariant Inv (fun _ _ _ hInv hStep => hInv.step hStep) hInv hRun

/-- Every context on which `stop()` is called lives, in exactly the runs which meet the
condition. -/
theorem misused_iff {events : List Event} (hRun : run step initial events = some s) :
    s.misused = false ↔ Along step StopsBeforeCatch initial events := by
  constructor
  · intro hUsed
    by_contra hNot
    obtain ⟨first, event, rest, before, after, rfl, hFirst, hBad, hStep, hRest⟩ :=
      exists_not_of_not_along hRun hNot
    have hMisused : after.misused = true :=
      misused_of_not_stops (inv_of_run inv_initial hFirst) hBad hStep
    have hLater : s.misused = true :=
      run_invariant (fun s => s.misused = true)
        (fun _ _ _ hMisused hStep => misused_mono hMisused hStep) hMisused hRest
    cases hUsed.symm.trans hLater
  · intro hStops
    have hBoth : Inv s ∧ s.misused = false :=
      run_invariant_along (fun s => Inv s ∧ s.misused = false)
        (fun _ _ _ h hStops hStep =>
          ⟨h.1.step hStep, (misused_of_step h.1 hStops hStep).trans h.2⟩)
        ⟨inv_initial, rfl⟩ hStops hRun
    exact hBoth.2

/-! The end of the event loop. -/

/-- The event loop has ended or will end. -/
def Ends (s : State) : Prop :=
  s.server.AfterLoop ∨ s.server.Failed ∨ ∃ ctx, s.context = some ctx ∧ ctx.stopped = true

theorem Ends.step (hInv : Inv s) (hEnds : Ends s) (h : step s event = some s') : Ends s' := by
  have hHolds := hInv.holds
  cases moves_of_step h with
  | construct hPc => grind [Ends, Holds, ServerPc.AfterLoop, ServerPc.Failed]
  | leave | clear | destroy => grind [Ends, ServerPc.AfterLoop]
  | throw => exact .inr (.inl (.inl rfl))
  | unwind => exact .inr (.inl (.inr (.inl rfl)))
  | handle | abort => exact .inr (.inl (.inr (.inr rfl)))
  | store | resolve | listen | enter | dispatch | finish | work | load | skip | stop | join =>
      grind [Ends, ServerPc.AfterLoop, ServerPc.Failed]

theorem Ends.not_runsUnstopped (hEnds : Ends s) : ¬RunsUnstopped s := by
  rintro ⟨hLoop, ctx, hContext, hRuns⟩
  grind [Ends, ServerPc.AfterLoop, ServerPc.InLoop, ServerPc.Failed]

/-- The statements which are left to `run`. -/
def ServerPc.rank : ServerPc → ℕ
  | .construct => 9
  | .store => 8
  | .resolve => 7
  | .listen => 6
  | .enter => 5
  | .handling _ => 4
  | .loop => 3
  | .clear => 2
  | .destroy => 1
  | .exited | .unwinding | .caught | .aborted => 0

/-- Outside of the loop `run` can go on by itself. -/
theorem exists_serverStep (hLoop : ¬s.server.InLoop) (hAlive : ¬s.server.Failed)
    (hGoes : s.server ≠ .exited) :
    ∃ s', step s .server = some s' ∧ ¬s'.server.Failed ∧ s'.server.rank < s.server.rank := by
  cases hPc : s.server with
  | loop => exact absurd (.inl hPc) hLoop
  | handling handler => exact absurd (.inr ⟨handler, hPc⟩) hLoop
  | exited => exact absurd hPc hGoes
  | unwinding => exact absurd (.inl hPc) hAlive
  | caught => exact absurd (.inr (.inl hPc)) hAlive
  | aborted => exact absurd (.inr (.inr hPc)) hAlive
  | construct | store | resolve | listen | enter | clear | destroy =>
      simp [ServerThread.step, serverStep, hPc, ServerPc.rank, ServerPc.Failed]

/-- A stopped loop can be left, once the handler in it is done. -/
theorem exists_step_of_ends (hEnds : Ends s) (hAlive : ¬s.server.Failed)
    (hGoes : s.server ≠ .exited) :
    ∃ event s', step s event = some s' ∧ ¬s'.server.Failed ∧ s'.server.rank < s.server.rank := by
  by_cases hLoop : s.server.InLoop
  · obtain hPc | ⟨handler, hPc⟩ := hLoop
    · obtain hLeft | hFailed | ⟨ctx, hContext, hStop⟩ := hEnds
      · grind [ServerPc.AfterLoop]
      · exact absurd hFailed hAlive
      · refine ⟨.server, { s with server := .clear }, ?_, ?_⟩
        · simp [ServerThread.step, serverStep, hPc, hContext, hStop]
        · simp [hPc, ServerPc.rank, ServerPc.Failed]
    · refine ⟨.finish false, ?_⟩
      simp [ServerThread.step, finishStep, hPc, ServerPc.rank, ServerPc.Failed]
  · obtain ⟨s', hStep, hNext⟩ := exists_serverStep hLoop hAlive hGoes
    exact ⟨.server, s', hStep, hNext⟩

theorem canExit_of_ends (hInv : Inv s) (hEnds : Ends s) (hAlive : ¬s.server.Failed) :
    CanExit s := by
  let Leaving (s : State) : Prop := Inv s ∧ Ends s ∧ ¬s.server.Failed
  have hNext : ∀ s, Leaving s → ¬s.server = .exited →
      ∃ event s', step s event = some s' ∧ Leaving s' ∧ s'.server.rank < s.server.rank := by
    rintro s ⟨hInv, hEnds, hAlive⟩ hGoes
    obtain ⟨event, s', hStep, hAlive', hRank⟩ := exists_step_of_ends hEnds hAlive hGoes
    exact ⟨event, s', hStep, ⟨hInv.step hStep, hEnds.step hInv hStep, hAlive'⟩, hRank⟩
  obtain ⟨events, s', hRun, hExited, -⟩ :=
    exists_run_of_rank Leaving (fun s => s.server = .exited) (fun s => s.server.rank) hNext
      ⟨hInv, hEnds, hAlive⟩
  exact ⟨events, s', hRun, hExited⟩

/-! A load after the store. -/

/-- `shutdown()` has not missed the context. -/
structure Caught (s : State) : Prop where
  inv : Inv s
  test : ¬s.server.Failed → s.main ≠ .test .null
  ends : s.main.AfterShutdown → Ends s

theorem caught_initial : Caught initial := by
  refine ⟨inv_initial, ?_, ?_⟩
  · intro _ hTest
    cases hTest
  · rintro (hJoin | hReturned)
    · cases hJoin
    · cases hReturned

/-- After the store the load finds the context. -/
theorem Inv.ioCtx_of_load (hInv : Inv s) (hAlive : ¬s.server.Failed) (hMain : s.main = .load)
    (hStored : ¬s.server.BeforeStore) : s.ioCtx = .ioContext := by
  apply hInv.published hStored _ hAlive
  intro hLeft
  have hAfter := hInv.afterShutdown_of_afterLoop hLeft
  rw [hMain] at hAfter
  exact MainPc.not_afterShutdown_load hAfter

/-- Once `shutdown()` calls `stop()`, the loop ends: on a dead context there is none. -/
theorem Inv.ends_of_stop (hInv : Inv s) (hAlive : s.server ≠ .aborted)
    (hMain : s.main = .test .ioContext) (h : ServerThread.step s .main = some s') : Ends s' := by
  cases moves_of_step h with
  | stop =>
      by_cases hCatch : s.server = .caught
      · exact .inr (.inl (.inr (.inl hCatch)))
      · obtain ⟨ctx, hContext⟩ := hInv.context_of_test hAlive hCatch hMain
        exact .inr (.inr ⟨{ ctx with stopped := true }, by rw [hContext]; rfl, rfl⟩)
  | work _ hMain' | load _ hMain' | skip _ hMain' | join _ hMain' =>
      cases hMain.symm.trans hMain'

theorem Caught.step (hCaught : Caught s) (hLoads : LoadsAfterStore s event)
    (h : step s event = some s') : Caught s' := by
  have hInv := hCaught.inv
  have hEnds : s.main.AfterShutdown → Ends s' := fun hAfter => (hCaught.ends hAfter).step hInv h
  have hTest := hCaught.test
  refine ⟨hInv.step h, ?_, ?_⟩
  · cases moves_of_step h with
    | load _ hMain =>
        intro hAlive hNull
        have hPointer := hInv.ioCtx_of_load hAlive hMain (hLoads rfl hMain)
        cases hPointer.symm.trans (MainPc.test.inj hNull)
    | work | skip | stop | join =>
        intro _ hNull
        cases hNull
    | throw =>
        intro hAlive
        exact absurd (.inl rfl) hAlive
    | unwind =>
        intro hAlive
        exact absurd (.inr (.inl rfl)) hAlive
    | handle | abort =>
        intro hAlive
        exact absurd (.inr (.inr rfl)) hAlive
    | construct hPc | store hPc | resolve hPc | listen hPc | enter hPc | leave hPc | clear hPc
    | destroy hPc | dispatch hPc | finish _ hPc =>
        intro _
        apply hTest
        rw [hPc]
        simp [ServerPc.Failed]
  · cases moves_of_step h with
    | work =>
        intro hAfter
        exact absurd hAfter MainPc.not_afterShutdown_load
    | load =>
        intro hAfter
        exact absurd hAfter (MainPc.not_afterShutdown_test _)
    | skip hAlive hMain =>
        intro _
        by_contra hRuns
        exact hTest (fun hFailed => hRuns (.inr (.inl hFailed))) hMain
    | stop hAlive hMain =>
        intro _
        exact hInv.ends_of_stop hAlive hMain h
    | join _ hMain =>
        intro _
        exact hEnds (.inl hMain)
    | construct | store | resolve | listen | enter | leave | clear | destroy | unwind | handle
    | dispatch | finish | throw | abort => exact hEnds

/-! A load before the store. -/

/-- `shutdown()` has read a null pointer, and the loop does not end. -/
structure Missed (s : State) : Prop where
  inv : Inv s
  main : s.main = .test .null ∨ s.main = .join
  runs : ¬s.server.AfterLoop
  unstopped : ∀ ctx, s.context = some ctx → ctx.stopped = false

theorem missed_of_load (hInv : Inv s) (hMain : s.main = .load) (hBefore : s.server.BeforeStore)
    (h : step s .main = some s') : Missed s' := by
  have hNull := hInv.ioCtx_of_beforeStore hBefore
  refine ⟨hInv.step h, ?_, ?_, ?_⟩ <;> cases moves_of_step h with
  | load => grind [ServerPc.BeforeStore, ServerPc.AfterLoop, MainPc.AfterShutdown, hInv.stopped]
  | work _ hMain' | skip _ hMain' | stop _ hMain' | join _ hMain' => cases hMain.symm.trans hMain'

theorem Missed.step (hMissed : Missed s) (h : step s event = some s') : Missed s' := by
  obtain ⟨hInv, hMain, hRuns, hUnstopped⟩ := hMissed
  have hHolds := hInv.holds
  refine ⟨hInv.step h, ?_, ?_, ?_⟩
  · cases moves_of_step h with
    | skip => exact .inr rfl
    | work _ hPc | load _ hPc | stop _ hPc => grind
    | join _ _ hExited => exact absurd (.inr (.inr hExited)) hRuns
    | construct | store | resolve | listen | enter | leave | clear | destroy | unwind | handle
    | dispatch | finish | throw | abort => exact hMain
  · cases moves_of_step h with
    | @leave ctx hPc hContext hLeave =>
        rw [hPc] at hHolds
        have hStop := (hHolds.accepts hContext).stopped hLeave
        cases (hUnstopped ctx hContext).symm.trans hStop
    | clear hPc => exact absurd (.inl hPc) hRuns
    | destroy hPc => exact absurd (.inr (.inl hPc)) hRuns
    | work | load | skip | stop | join => exact hRuns
    | construct | store | resolve | listen | enter | unwind | handle | dispatch | finish | throw
    | abort =>
        rintro (hPc | hPc | hPc) <;> cases hPc
  · cases moves_of_step h with
    | construct | destroy | unwind | dispatch => grind
    | listen | finish =>
        intro _ hSome
        obtain ⟨ctx, hContext, rfl⟩ := Option.map_eq_some_iff.mp hSome
        exact hUnstopped ctx hContext
    | stop _ hPc => grind
    | store | resolve | enter | leave | clear | handle | throw | abort | work | load | skip
    | join => exact hUnstopped

theorem canRunUnstopped_of_missed (hMissed : Missed s) (hAlive : ¬s.server.Failed) :
    CanRunUnstopped s := by
  let Starting (s : State) : Prop := Missed s ∧ ¬s.server.Failed
  have hNext : ∀ s, Starting s → ¬s.server.InLoop →
      ∃ event s', step s event = some s' ∧ Starting s' ∧ s'.server.rank < s.server.rank := by
    rintro s ⟨hMissed, hAlive⟩ hLoop
    have hGoes : s.server ≠ .exited := fun hExited => hMissed.runs (.inr (.inr hExited))
    obtain ⟨s', hStep, hAlive', hRank⟩ := exists_serverStep hLoop hAlive hGoes
    exact ⟨.server, s', hStep, ⟨hMissed.step hStep, hAlive'⟩, hRank⟩
  obtain ⟨events, s', hRun, hLoop, hMissed', hAlive'⟩ :=
    exists_run_of_rank Starting (fun s => s.server.InLoop) (fun s => s.server.rank) hNext
      ⟨hMissed, hAlive⟩
  obtain ⟨ctx, hContext⟩ := hMissed'.inv.context_of_inLoop hLoop
  exact ⟨events, s', hRun, hLoop, ctx, hContext, hMissed'.unstopped ctx hContext⟩

/-- A shutdown keeps its promise in exactly the runs in which the load comes after the store, and
`stop()` is not called on what an exception has destroyed. -/
theorem safe_iff_loadsAfterStore {events : List Event} (hRun : run step initial events = some s) :
    Safe s ↔ (s.main.AfterShutdown → ¬s.server.Failed →
        Along step LoadsAfterStore initial events) ∧
      Along step StopsBeforeCatch initial events := by
  have hInv : Inv s := inv_of_run inv_initial hRun
  constructor
  · intro hSafe
    refine ⟨fun hAfter hAlive => ?_, (misused_iff hRun).mp hSafe.alive⟩
    by_contra hNot
    obtain ⟨first, event, rest, before, after, rfl, hFirst, hBad, hStep, hRest⟩ :=
      exists_not_of_not_along hRun hNot
    simp only [LoadsAfterStore, Classical.not_imp, not_not] at hBad
    obtain ⟨rfl, hMain, hStore⟩ := hBad
    have hMissed : Missed s :=
      run_invariant Missed (fun _ _ _ hMissed hStep => hMissed.step hStep)
        (missed_of_load (inv_of_run inv_initial hFirst) hMain hStore hStep) hRest
    exact hSafe.reaches hAfter (canRunUnstopped_of_missed hMissed hAlive)
  · rintro ⟨hLoads, hStops⟩
    have hEnds : s.main.AfterShutdown → Ends s := by
      intro hAfter
      by_cases hAlive : s.server.Failed
      · exact .inr (.inl hAlive)
      · have hCaught : Caught s :=
          run_invariant_along Caught (fun _ _ _ hCaught hLoads hStep => hCaught.step hLoads hStep)
            caught_initial (hLoads hAfter hAlive) hRun
        exact hCaught.ends hAfter
    refine ⟨?_, (misused_iff hRun).mpr hStops, ?_⟩
    · rintro hAfter ⟨later, s', hLater, hRuns⟩
      have hBoth : Inv s' ∧ Ends s' :=
        run_invariant (fun s => Inv s ∧ Ends s)
          (fun _ _ _ h hStep => ⟨h.1.step hStep, h.2.step h.1 hStep⟩) ⟨hInv, hEnds hAfter⟩ hLater
      exact hBoth.2.not_runsUnstopped hRuns
    · intro hJoin hAlive
      exact canExit_of_ends hInv (hEnds (.inl hJoin)) hAlive

/-- A shutdown during the start of the server, which then accepts one connection. -/
theorem safe_iff_loadsAfterStore_resolving :
    ∃ events s, run step initial events = some s ∧ s.main = .returned ∧ Safe s := by
  let events : List Event := [.server, .server, .main, .main, .server, .server, .server,
    .dispatch 0, .main, .finish false, .server, .server, .server, .main]
  have hRun : run step initial events = some
      { server := .exited, main := .returned, stopFlag := true, ioCtx := .null, context := none
        connections := 2, misused := false } := by
    decide
  have hLoads : Along step LoadsAfterStore initial events := by
    simp [events, Along, LoadsAfterStore, step, serverStep, mainStep, dispatchStep, finishStep,
      initial, ServerPc.BeforeStore]
  have hStops : Along step StopsBeforeCatch initial events := by
    simp [events, Along, StopsBeforeCatch, step, serverStep, mainStep, dispatchStep, finishStep,
      initial]
  exact ⟨events, _, hRun, rfl, (safe_iff_loadsAfterStore hRun).mpr ⟨fun _ _ => hLoads, hStops⟩⟩

/-- `shutdown()` returns before the server thread has run, which then enters its loop. -/
theorem not_safe_early_load :
    ¬∀ events s, run step initial events = some s → Safe s := by
  intro hAll
  have hSafe := hAll [.main, .main, .main, .server, .server, .server, .server, .server] _ rfl
  exact hSafe.reaches (.inl rfl) ⟨[], _, rfl, .inl rfl, _, rfl, rfl⟩

/-- The server cannot listen, and `shutdown()` stops the context which the exception has
destroyed. -/
example : (run step initial
    [.server, .server, .server, .main, .main, .throw, .server, .main]).map State.misused =
      some true := by
  decide

end Commission.ServerThread
