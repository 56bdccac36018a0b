import GnomeVfs.XferTypes

/- The calls of the progress callback, and the two handlers that ask it what to do. -/
namespace GnomeVfs.Xfer

open Interaction
open Interaction.Action (wp)

variable {U : Type} (cfg : Config U)

def uriName (u : U) : Option Bytes := if cfg.uris.isNull u then none else some (cfg.uris.toText u)

def progressSetSourceTargetUris (source dest : U) : XferM U Unit :=
  setProgress fun p => { p with sourceName := uriName cfg source, targetName := uriName cfg dest }

def progressSetSourceTarget (source dest : Option Bytes) : XferM U Unit :=
  setProgress fun p => { p with sourceName := source, targetName := dest }

def notice (site : Site) (deadline : Option Int) (p : ProgressInfo) : Notice :=
  { site := site, info := p, hasSync := cfg.hasSync, hasUpdate := cfg.hasUpdate, deadline := deadline }

/-- The part that all the `call_progress` functions share. `unasked` is the result when there
is no callback, `schedule` sets the time of the next update. -/
def notify (site : Site) (phase : Phase) (deadline : Option Int) (unasked : Int)
    (schedule : Int → State → State) : XferM U Int := do
  setProgress fun p => { p with phase := phase }
  let s ← get
  let n := notice cfg site deadline s.progress
  let answer ← ask (.notify n)
  setProgress fun p => { p with duplicateName := answer.duplicateName }
  modify fun s => if n.due answer then schedule (answer.now + updatePeriod) s else s
  return n.heard answer unasked

def callProgress (phase : Phase) : XferM U Int := do
  progressSetSourceTargetUris cfg cfg.uris.null cfg.uris.null
  notify cfg .phaseChange phase none 0 fun t s => { s with nextUpdate := t }

def callProgressWithCurrentNames (site : Site) (phase : Phase) : XferM U Int :=
  notify cfg site phase none errorActionAbort
    fun t s => { s with nextUpdate := t, nextTextUpdate := t }

def callProgressUri (site : Site) (source dest : U) (phase : Phase) : XferM U Int := do
  progressSetSourceTargetUris cfg source dest
  notify cfg site phase none 0 fun t s => { s with nextUpdate := t, nextTextUpdate := t }

def atEnd (p : ProgressInfo) : Bool := p.totalBytesCopied ≥ p.bytesTotal

def callProgressOften (site : Site) (phase : Phase) : XferM U Int := do
  let s ← get
  notify cfg site phase (if atEnd s.progress then none else some s.nextUpdate) 1
    fun t s => { s with nextUpdate := t }

def callProgressWithUrisOften (site : Site) (source dest : U) (phase : Phase) : XferM U Int := do
  progressSetSourceTargetUris cfg source dest
  let s ← get
  notify cfg site phase (if atEnd s.progress then none else some s.nextTextUpdate) 1
    fun t s => { s with nextTextUpdate := t }

/-- What `handle_error` returns and leaves behind its pointers. -/
structure Handled where
  retry : Bool
  result : VfsResult
  skip : Bool
  deriving DecidableEq

def handleError (result : VfsResult) : XferM U Handled :=
  match cfg.errorMode with
  | .abort => pure ⟨false, result, false⟩
  | .query => do
    setProgress fun p => { p with status := .vfsError, vfsStatus := result }
    let s ← get
    let action ← callProgressWithCurrentNames cfg .handleError s.progress.phase
    setProgress fun p => { p with status := .ok }
    if action = errorActionRetry then return ⟨true, result, false⟩
    else if action = errorActionAbort then return ⟨false, .interrupted, false⟩
    else if action = errorActionSkip then return ⟨false, .ok, true⟩
    else return ⟨false, result, false⟩

/-- What `handle_overwrite` returns and leaves behind its pointers. -/
structure Overwritten where
  retry : Bool
  result : VfsResult
  replace : Bool
  skip : Bool
  deriving DecidableEq

def setOverwriteMode (mode : OverwriteMode) : XferM U Unit :=
  modify fun s => { s with overwriteMode := mode }

def handleOverwrite (result : VfsResult) : XferM U Overwritten := do
  let s ← get
  match s.overwriteMode with
  | .abort => return ⟨false, .fileExists, false, false⟩
  | .replace => return ⟨true, result, true, false⟩
  | .skip => return ⟨false, result, false, true⟩
  | .query =>
    setProgress fun p => { p with status := .overwrite, vfsStatus := result }
    let action ← callProgressWithCurrentNames cfg .handleOverwrite s.progress.phase
    setProgress fun p => { p with status := .ok }
    if action = overwriteActionAbort then return ⟨false, .fileExists, false, false⟩
    else if action = overwriteActionReplace then return ⟨true, result, true, false⟩
    else if action = overwriteActionReplaceAll then
      setOverwriteMode .replace
      return ⟨true, result, true, false⟩
    else if action = overwriteActionSkip then return ⟨false, result, false, true⟩
    else if action = overwriteActionSkipAll then
      setOverwriteMode .skip
      return ⟨false, result, false, true⟩
    else return ⟨false, result, false, false⟩

variable {result : VfsResult}

section Spec

variable {cfg} {σ : Type} {step : σ → XferEvent U → σ} {H : Stop → σ → Prop} {s : State} {m : σ}

/-- The type of the reply reduces with the request, so that it cannot be part of the pattern. -/
@[simp] theorem wp_ask {op : Op U} {Q : op.Reply → State → σ → Prop} :
    wp (α := no_index op.Reply) step (ask op) s Q H m ↔ ∀ a, Q a s (step m ⟨op, a⟩) := Iff.rfl

@[simp] theorem wp_setProgress {f : ProgressInfo → ProgressInfo} {Q : Unit → State → σ → Prop} :
    wp step (setProgress f : XferM U Unit) s Q H m ↔ Q () { s with progress := f s.progress } m := Iff.rfl

@[simp] theorem wp_progressSetSourceTargetUris {source dest : U} {Q : Unit → State → σ → Prop} :
    wp step (progressSetSourceTargetUris cfg source dest) s Q H m ↔
      Q () { s with progress := { s.progress with
        sourceName := uriName cfg source, targetName := uriName cfg dest } } m := Iff.rfl

@[simp] theorem wp_setOverwriteMode {mode : OverwriteMode} {Q : Unit → State → σ → Prop} :
    wp step (setOverwriteMode mode : XferM U Unit) s Q H m ↔
      Q () { s with overwriteMode := mode } m := Iff.rfl

/-- A notification is one request. It leaves the overwrite mode alone. -/
structure Notified (site : Site) (s : State) (n : Notice) (s' : State) : Prop where
  site : n.site = site
  status : n.info.status = s.progress.status
  vfsStatus : n.info.vfsStatus = s.progress.vfsStatus
  mode : s'.overwriteMode = s.overwriteMode

variable {site : Site} {phase : Phase} {source dest : U} {Q : Int → State → σ → Prop}

theorem wp_notify {deadline : Option Int} {unasked : Int} {schedule : Int → State → State}
    (keeps : ∀ t s, (schedule t s).overwriteMode = s.overwriteMode)
    (holds : ∀ n a s', Notified site s n s' → Q (n.heard a unasked) s' (step m ⟨.notify n, a⟩)) :
    wp step (notify cfg site phase deadline unasked schedule) s Q H m := by
  intro a
  refine holds _ a _ ⟨rfl, rfl, rfl, ?_⟩
  dsimp only
  split
  · exact keeps _ _
  · rfl

theorem wp_callProgressWithCurrentNames
    (holds : ∀ n a s', Notified site s n s' → Q (n.heard a 0) s' (step m ⟨.notify n, a⟩)) :
    wp step (callProgressWithCurrentNames cfg site phase) s Q H m :=
  wp_notify (fun _ _ => rfl) holds

theorem wp_callProgressUri (holds : ∀ n a s', Notified site s n s' → Q (n.heard a 0) s' (step m ⟨.notify n, a⟩)) :
    wp step (callProgressUri cfg site source dest phase) s Q H m := by
  simp only [callProgressUri, Action.wp_bind, wp_progressSetSourceTargetUris]
  exact wp_notify (fun _ _ => rfl) fun n a s' sent => holds n a s' ⟨sent.site, sent.status, sent.vfsStatus, sent.mode⟩

theorem wp_callProgressOften (holds : ∀ n a s', Notified site s n s' → Q (n.heard a 1) s' (step m ⟨.notify n, a⟩)) :
    wp step (callProgressOften cfg site phase) s Q H m := by
  simp only [callProgressOften, Action.wp_bind, Action.wp_get]
  exact wp_notify (fun _ _ => rfl) holds

theorem wp_callProgressWithUrisOften
    (holds : ∀ n a s', Notified site s n s' → Q (n.heard a 1) s' (step m ⟨.notify n, a⟩)) :
    wp step (callProgressWithUrisOften cfg site source dest phase) s Q H m := by
  simp only [callProgressWithUrisOften, Action.wp_bind, wp_progressSetSourceTargetUris, Action.wp_get]
  exact wp_notify (fun _ _ => rfl) fun n a s' sent => holds n a s' ⟨sent.site, sent.status, sent.vfsStatus, sent.mode⟩

/-- The ways in which the error handler ends. -/
def Handled.Of (result : VfsResult) (h : Handled) : Prop :=
  h = ⟨true, result, false⟩ ∨ h = ⟨false, .interrupted, false⟩ ∨ h = ⟨false, .ok, true⟩ ∨
    h = ⟨false, result, false⟩

/-- What the error handler makes of an answer. -/
def Handled.answered (action : Int) (result : VfsResult) : Handled :=
  if action = errorActionRetry then ⟨true, result, false⟩
  else if action = errorActionAbort then ⟨false, .interrupted, false⟩
  else if action = errorActionSkip then ⟨false, .ok, true⟩
  else ⟨false, result, false⟩

theorem Handled.answered_of (action : Int) (result : VfsResult) : (Handled.answered action result).Of result := by
  unfold Handled.answered
  split
  · exact Or.inl rfl
  · split
    · exact Or.inr (Or.inl rfl)
    · split
      · exact Or.inr (Or.inr (Or.inl rfl))
      · exact Or.inr (Or.inr (Or.inr rfl))

theorem wp_handleError_answered {Q : Handled → State → σ → Prop}
    (abort : cfg.errorMode = .abort → Q ⟨false, result, false⟩ s m)
    (query : cfg.errorMode = .query → ∀ n a s', n.site = .handleError → n.info.status = .vfsError →
      s'.overwriteMode = s.overwriteMode → n.info.vfsStatus = result →
        Q (Handled.answered (n.heard a errorActionAbort) result) s' (step m ⟨.notify n, a⟩)):
    wp step (handleError cfg result) s Q H m := by
  unfold handleError
  cases mode : cfg.errorMode with
  | abort => exact abort mode
  | query =>
    simp only [Action.wp_bind, wp_setProgress, Action.wp_get]
    refine wp_callProgressWithCurrentNames fun n a s' sent => ?_
    have next := query mode n a { s' with progress := { s'.progress with status := .ok } } sent.site sent.status sent.mode
      sent.vfsStatus
    simp only [Action.wp_ite, Action.wp_pure]
    unfold Handled.answered at next
    refine ⟨fun retry => ?_, fun unretried => ⟨fun abort => ?_, fun live => ⟨fun skip => ?_, fun other => ?_⟩⟩⟩
    · rwa [if_pos retry] at next
    · rwa [if_neg unretried, if_pos abort] at next
    · rwa [if_neg unretried, if_neg live, if_pos skip] at next
    · rwa [if_neg unretried, if_neg live, if_neg other] at next

theorem wp_handleError {Q : Handled → State → σ → Prop}
    (abort : cfg.errorMode = .abort → Q ⟨false, result, false⟩ s m)
    (query : cfg.errorMode = .query → ∀ n a s' h, n.site = .handleError → n.info.status = .vfsError →
      s'.overwriteMode = s.overwriteMode → h.Of result → Q h s' (step m ⟨.notify n, a⟩)):
    wp step (handleError cfg result) s Q H m :=
  wp_handleError_answered abort fun mode n a s' site status kept _ =>
    query mode n a s' _ site status kept (Handled.answered_of _ _)

/-- The ways in which the overwrite handler ends, without the mode `ABORT`. -/
def Overwritten.Of (result : VfsResult) (o : Overwritten) : Prop :=
  o = ⟨false, .fileExists, false, false⟩ ∨ o = ⟨true, result, true, false⟩ ∨
    o = ⟨false, result, false, true⟩ ∨ o = ⟨false, result, false, false⟩

/-- What the overwrite handler makes of a mode in which it does not ask. -/
def Overwritten.fixed (mode : OverwriteMode) (result : VfsResult) : Overwritten :=
  match mode with
  | .abort => ⟨false, .fileExists, false, false⟩
  | .replace => ⟨true, result, true, false⟩
  | _ => ⟨false, result, false, true⟩

/-- What it makes of an answer. -/
def Overwritten.answered (action : Int) (result : VfsResult) : Overwritten :=
  if action = overwriteActionAbort then ⟨false, .fileExists, false, false⟩
  else if action = overwriteActionReplace ∨ action = overwriteActionReplaceAll then ⟨true, result, true, false⟩
  else if action = overwriteActionSkip ∨ action = overwriteActionSkipAll then ⟨false, result, false, true⟩
  else ⟨false, result, false, false⟩

theorem Overwritten.answered_of (action : Int) (result : VfsResult) : (Overwritten.answered action result).Of result := by
  unfold Overwritten.answered
  split
  · exact Or.inl rfl
  · split
    · exact Or.inr (Or.inl rfl)
    · split
      · exact Or.inr (Or.inr (Or.inl rfl))
      · exact Or.inr (Or.inr (Or.inr rfl))

theorem wp_handleOverwrite_answered {Q : Overwritten → State → σ → Prop}
    (quiet : s.overwriteMode ≠ .query → Q (Overwritten.fixed s.overwriteMode result) s m)
    (query : s.overwriteMode = .query → ∀ n a s', n.site = .handleOverwrite → n.info.status = .overwrite →
      Q (Overwritten.answered (n.heard a errorActionAbort) result) s' (step m ⟨.notify n, a⟩)):
    wp step (handleOverwrite cfg result) s Q H m := by
  unfold handleOverwrite
  simp only [Action.wp_bind, Action.wp_get]
  cases mode : s.overwriteMode with
  | abort =>
    have settled := quiet (by simp [mode])
    rwa [mode] at settled
  | replace =>
    have settled := quiet (by simp [mode])
    rwa [mode] at settled
  | skip =>
    have settled := quiet (by simp [mode])
    rwa [mode] at settled
  | query =>
    simp only [Action.wp_bind, wp_setProgress]
    refine wp_callProgressWithCurrentNames fun n a s' sent => ?_
    have next := fun s' => query mode n a s' sent.site sent.status
    unfold Overwritten.answered at next
    simp only [Action.wp_ite, Action.wp_pure, Action.wp_bind, wp_setOverwriteMode]
    refine ⟨fun abort => ?_, fun live => ⟨fun replace => ?_, fun once => ⟨fun all => ?_, fun kept => ⟨fun skip => ?_,
      fun here => ⟨fun skipAll => ?_, fun other => ?_⟩⟩⟩⟩⟩
    · simpa only [if_pos abort] using next _
    · simpa only [if_neg live, if_pos (Or.inl replace)] using next _
    · simpa only [if_neg live, if_pos (Or.inr all)] using next _
    · simpa only [if_neg live, if_neg (not_or.mpr ⟨once, kept⟩), if_pos (Or.inl skip)] using next _
    · simpa only [if_neg live, if_neg (not_or.mpr ⟨once, kept⟩), if_pos (Or.inr skipAll)] using next _
    · simpa only [if_neg live, if_neg (not_or.mpr ⟨once, kept⟩), if_neg (not_or.mpr ⟨here, other⟩)] using next _

theorem wp_handleOverwrite {Q : Overwritten → State → σ → Prop}
    (quiet : ∀ o, o.Of result →
    (s.overwriteMode = .abort → o = ⟨false, .fileExists, false, false⟩) → Q o s m)
    (query : s.overwriteMode = .query → ∀ n a s' o, n.site = .handleOverwrite →
      n.info.status = .overwrite → o.Of result → Q o s' (step m ⟨.notify n, a⟩)):
    wp step (handleOverwrite cfg result) s Q H m := by
  apply wp_handleOverwrite_answered
  · intro _
    apply quiet
    · cases s.overwriteMode <;> simp [Overwritten.Of, Overwritten.fixed]
    · intro mode
      rw [mode]
      rfl
  · exact fun mode n a s' site status => query mode n a s' _ site status (Overwritten.answered_of _ _)

end Spec

end GnomeVfs.Xfer
