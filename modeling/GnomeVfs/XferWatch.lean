import GnomeVfs.XferCopy

/- A monitor of the cancelling answers of the callback, and the rules to reason with it. -/
namespace GnomeVfs.Xfer

open Interaction
open Interaction.Action (wp)

variable {U : Type}

/-- The callback has answered 0 to a notification that reports no problem. -/
def cancels : XferEvent U → Bool
  | ⟨.notify n, a⟩ => n.info.status = .ok && 0 ∈ n.answers a
  | _ => false

/-- Something is created, removed, written, moved, or has its attributes set. -/
def affects : XferEvent U → Bool
  | ⟨.unlink _, _⟩ | ⟨.removeDirectory _, _⟩ | ⟨.makeDirectory _, _⟩ | ⟨.createUri _ _, _⟩
  | ⟨.write _ _, _⟩ | ⟨.createSymbolicLink _ _, _⟩ | ⟨.move _ _ _, _⟩ | ⟨.setFileInfo _ _ _, _⟩ => true
  | _ => false

/-- A result that every function on the way passes on to its caller: it is not taken for
success, for the end of a directory or for a name conflict. -/
def isFinal (cfg : Config U) (result : VfsResult) : Bool :=
  result ≠ .ok && result ≠ .eof && !(cfg.options.useUniqueNames && result = .fileExists)

/-- The places whose answer is turned into a result that reaches the caller. -/
def heeds (cfg : Config U) : Site → Bool
  | .dataStart | .symlinkCreated | .directoryOpened => true
  | .dataBlock skip => !skip
  | .closeTarget skip => !skip
  | .directoryCreated infoResult => isFinal cfg infoResult
  | .removeFile errorMode => errorMode = .abort
  | .copyItem type => type ≠ .regular && type ≠ .directory && type ≠ .symbolicLink
  | _ => false

/-- The answer that cancels is the last one, and it is given at a place that heeds it. -/
def honoured (cfg : Config U) : XferEvent U → Bool
  | ⟨.notify n, a⟩ => (n.answers a).getLast? = some 0 && heeds cfg n.site
  | _ => false

/-- `exempt` is the state behind a cancelling answer that is not heeded. -/
inductive Watch where
  | live | cancelled | exempt | broken
  deriving DecidableEq

def watch (cfg : Config U) : Watch → XferEvent U → Watch
  | .live, e => if cancels e then (if honoured cfg e then .cancelled else .exempt) else .live
  | .cancelled, e => if affects e then .broken else .cancelled
  | m, _ => m

section Rules

variable {cfg : Config U} {α β : Type}

/-- From `live` the program never breaks the rule. `L` holds of what it returns when nobody
has cancelled, `C` when somebody has; a run that stops has not been cancelled. -/
def Watched (cfg : Config U) (x : XferM U α) (L C : α → Prop) : Prop :=
  ∀ s, wp (watch cfg) x s (fun a _ m => m = .exempt ∨ (m = .live ∧ L a) ∨ (m = .cancelled ∧ C a))
    (fun _ m => m = .exempt ∨ m = .live) .live

/-- Behind a cancelling answer the program returns without touching anything. -/
def Settles (cfg : Config U) (x : XferM U α) (C : α → Prop) : Prop :=
  ∀ s, wp (watch cfg) x s (fun a _ m => m = .cancelled ∧ C a) (fun _ _ => False) .cancelled

theorem wp_exempt (x : XferM U α) (s : State) :
    wp (watch cfg) x s (fun _ _ m => m = .exempt) (fun _ m => m = .exempt) .exempt := by
  unfold wp
  induction x s with
  | done a => rfl
  | stop reason => rfl
  | ask op next ih => exact fun a => ih a

theorem Watched.mono {x : XferM U α} {L L' C C' : α → Prop} (holds : Watched cfg x L C)
    (live : ∀ a, L a → L' a) (cancelled : ∀ a, C a → C' a) : Watched cfg x L' C' := by
  intro s
  apply Action.wp_mono (holds s)
  · rintro a _ m (exempt | ⟨state, known⟩ | ⟨state, known⟩)
    · exact Or.inl exempt
    · exact Or.inr (Or.inl ⟨state, live a known⟩)
    · exact Or.inr (Or.inr ⟨state, cancelled a known⟩)
  · exact fun _ _ => id

theorem watched_pure {a : α} {L C : α → Prop} (known : L a) : Watched cfg (pure a : XferM U α) L C :=
  fun _ => Or.inr (Or.inl ⟨rfl, known⟩)

theorem watched_halt {reason : Stop} {L C : α → Prop} :
    Watched cfg (Action.halt reason : XferM U α) L C := fun _ => Or.inr rfl

theorem settles_pure {a : α} {C : α → Prop} (known : C a) : Settles cfg (pure a : XferM U α) C :=
  fun _ => ⟨rfl, known⟩

theorem Watched.bind {x : XferM U α} {f : α → XferM U β} {K D : α → Prop} {L C : β → Prop}
    (first : Watched cfg x K D) (second : ∀ a, K a → Watched cfg (f a) L C)
    (ended : ∀ a, D a → Settles cfg (f a) C) : Watched cfg (x >>= f) L C := by
  intro s
  rw [Action.wp_bind]
  apply Action.wp_mono (first s)
  · rintro a s m (rfl | ⟨rfl, known⟩ | ⟨rfl, known⟩)
    · exact Action.wp_mono (wp_exempt (f a) s) (fun _ _ _ => Or.inl) fun _ _ => Or.inl
    · exact second a known s
    · apply Action.wp_mono (ended a known s)
      · exact fun _ _ _ holds => Or.inr (Or.inr holds)
      · exact fun _ _ => False.elim
  · exact fun _ _ => id

theorem Settles.bind {x : XferM U α} {f : α → XferM U β} {D : α → Prop} {C : β → Prop}
    (first : Settles cfg x D) (second : ∀ a, D a → Settles cfg (f a) C) : Settles cfg (x >>= f) C := by
  intro s
  rw [Action.wp_bind]
  apply Action.wp_mono (first s)
  · rintro a s m ⟨rfl, known⟩
    exact second a known s
  · exact fun _ _ => id

theorem Watched.ite {c : Prop} [Decidable c] {x y : XferM U α} {L C : α → Prop}
    (yes : c → Watched cfg x L C) (no : ¬ c → Watched cfg y L C) : Watched cfg (if c then x else y) L C := by
  split
  · exact yes ‹c›
  · exact no ‹¬ c›

theorem Watched.get {f : State → XferM U α} {L C : α → Prop} (next : ∀ s, Watched cfg (f s) L C) :
    Watched cfg (get >>= f) L C := fun s => next s s

/-- How a round ends that keeps the invariant of its loop. -/
def Rounded {X : Type} (Inv : X → Prop) (L : α → Prop) : Step X α → Prop
  | .again y => Inv y
  | .finish a => L a

/-- The rule of the loop: a cancelling answer ends it. -/
theorem Watched.loop {X : Type} {body : X → XferM U (Step X α)} {L C : α → Prop} (Inv : X → Prop)
    (round : ∀ x, Inv x → Watched cfg (body x) (Rounded Inv L) (fun r => ∃ a, r = .finish a ∧ C a))
    (fuel : Nat) (x : X) (start : Inv x) :
    Watched cfg (loop body fuel x) L C := by
  induction fuel generalizing x with
  | zero => exact watched_halt
  | succ fuel ih =>
    apply Watched.bind (round x start)
    · rintro (y | a) known
      · exact ih y known
      · exact watched_pure known
    · rintro _ ⟨a, rfl, known⟩
      exact settles_pure known

theorem Watched.each {A X : Type} {body : A → X → XferM U (Step X X)} {C : X → Prop}
    (round : ∀ a x, Watched cfg (body a x) (fun _ => True) (fun r => ∃ y, r = .finish y ∧ C y))
    (items : List A) (x : X) : Watched cfg (Action.each body items x) (fun _ => True) C := by
  induction items generalizing x with
  | nil => exact watched_pure trivial
  | cons a rest ih =>
    apply Watched.bind (round a x)
    · rintro (y | y) _
      · exact ih y
      · exact watched_pure trivial
    · rintro _ ⟨y, rfl, known⟩
      exact settles_pure known

end Rules

section Calls

variable {cfg : Config U} {site : Site} {phase : Phase} {source dest : U} {α : Type} {fuel : Nat}

abbrev always {α : Type} (_ : α) : Prop := True

abbrev never {α : Type} (_ : α) : Prop := False

theorem Watched.seq {β : Type} {x : XferM U α} {f : α → XferM U β} {K : α → Prop} {L C : β → Prop}
    (first : Watched cfg x K never) (second : ∀ a, K a → Watched cfg (f a) L C) :
    Watched cfg (x >>= f) L C :=
  .bind first second fun _ => False.elim

theorem watched_ask {op : Op U} (quiet : ∀ a, cancels ⟨op, a⟩ = false) : Watched cfg (ask op) always never := by
  intro s a
  exact Or.inr (Or.inl ⟨by simp [watch, quiet a], trivial⟩)

theorem settles_ask {op : Op U} (quiet : ∀ a, affects ⟨op, a⟩ = false) : Settles cfg (ask op) always := by
  intro s a
  exact ⟨by simp [watch, quiet a], trivial⟩

theorem watched_tell {op : Op U} (quiet : ∀ a, cancels ⟨op, a⟩ = false) : Watched cfg (tell op) always never :=
  .seq (watched_ask quiet) fun _ _ => watched_pure trivial

theorem settles_tell {op : Op U} (quiet : ∀ a, affects ⟨op, a⟩ = false) : Settles cfg (tell op) always :=
  .bind (settles_ask quiet) fun _ _ => settles_pure trivial

theorem watched_setProgress {f : ProgressInfo → ProgressInfo} :
    Watched cfg (setProgress f : XferM U Unit) always never := fun _ => Or.inr (Or.inl ⟨rfl, trivial⟩)

theorem watched_progressSetSourceTargetUris :
    Watched cfg (progressSetSourceTargetUris cfg source dest) always never :=
  fun _ => Or.inr (Or.inl ⟨rfl, trivial⟩)

theorem watched_doIf {c : Prop} [Decidable c] {x : XferM U Unit} (yes : Watched cfg x always never) :
    Watched cfg (doIf c x) always never :=
  .ite (fun _ => yes) fun _ => watched_pure trivial

theorem watch_notice (cfg : Config U) (n : Notice) (a : Answer) (unasked : Int) :
    watch cfg .live ⟨.notify n, a⟩ = .exempt ∨ watch cfg .live ⟨.notify n, a⟩ = .live ∨
      (watch cfg .live ⟨.notify n, a⟩ = .cancelled ∧ n.heard a unasked = 0 ∧ heeds cfg n.site = true) := by
  by_cases cancel : cancels (U := U) ⟨.notify n, a⟩ = true
  · by_cases heed : honoured cfg ⟨.notify n, a⟩ = true
    · have last : (n.answers a).getLast? = some 0 ∧ heeds cfg n.site = true := by
        simpa [honoured] using heed
      refine Or.inr (Or.inr ⟨by simp [watch, cancel, heed], ?_, last.2⟩)
      simp [Notice.heard, List.getLastD_eq_getLast?, last.1]
    · exact Or.inl (by simp [watch, cancel, heed])
  · exact Or.inr (Or.inl (by simp [watch, cancel]))

theorem watched_callProgressOften :
    Watched cfg (callProgressOften cfg site phase) always (fun r => r = 0 ∧ heeds cfg site = true) := by
  intro s
  apply wp_callProgressOften
  intro n a s' sent
  rcases watch_notice cfg n a 1 with exempt | live | ⟨cancelled, zero, heed⟩
  · exact Or.inl exempt
  · exact Or.inr (Or.inl ⟨live, trivial⟩)
  · exact Or.inr (Or.inr ⟨cancelled, zero, sent.site ▸ heed⟩)

/-- At the other places the answer is not looked at. -/
theorem watched_unheeded (deaf : heeds cfg site = false) :
    Watched cfg (callProgressOften cfg site phase) always never := by
  apply watched_callProgressOften.mono
  · exact fun _ => id
  · rintro _ ⟨_, heed⟩
    simp [deaf] at heed

theorem watched_callProgressWithUrisOften :
    Watched cfg (callProgressWithUrisOften cfg site source dest phase) always
      (fun r => r = 0 ∧ heeds cfg site = true) := by
  intro s
  apply wp_callProgressWithUrisOften
  intro n a s' sent
  rcases watch_notice cfg n a 1 with exempt | live | ⟨cancelled, zero, heed⟩
  · exact Or.inl exempt
  · exact Or.inr (Or.inl ⟨live, trivial⟩)
  · exact Or.inr (Or.inr ⟨cancelled, zero, sent.site ▸ heed⟩)

theorem watch_problem {n : Notice} {a : Answer} (problem : n.info.status ≠ .ok) :
    watch cfg .live ⟨.notify n, a⟩ = .live := by
  simp [watch, cancels, problem]

theorem watched_handleError {result : VfsResult} :
    Watched cfg (handleError cfg result) (fun h => h.Of result) never := by
  intro s
  apply wp_handleError
  · exact fun _ => Or.inr (Or.inl ⟨rfl, by simp [Handled.Of]⟩)
  · intro _ n a s' h _ status _ handled
    exact Or.inr (Or.inl ⟨watch_problem (by simp [status]), handled⟩)

theorem watched_handleOverwrite {result : VfsResult} :
    Watched cfg (handleOverwrite cfg result) (fun o => o.Of result) never := by
  intro s
  apply wp_handleOverwrite
  · exact fun o handled _ => Or.inr (Or.inl ⟨rfl, handled⟩)
  · intro _ n a s' o _ status handled
    exact Or.inr (Or.inl ⟨watch_problem (by simp [status]), handled⟩)

/-- A name conflict is reported with the status `DUPLICATE`, so that no answer cancels. -/
theorem Watched.duplicate {f : ProgressInfo → ProgressInfo} {next : Int → XferM U α} {L C : α → Prop}
    (duplicate : ∀ p, (f p).status = .duplicate) (rest : ∀ answer, Watched cfg (next answer) L C) :
    Watched cfg (do
      setProgress f
      let answer ← callProgressUri cfg site source dest phase
      next answer) L C := by
  intro s
  rw [Action.wp_bind, wp_setProgress, Action.wp_bind]
  apply wp_callProgressUri
  intro n a s' sent
  have problem : n.info.status ≠ .ok := by simp [sent.status, duplicate]
  rw [watch_problem problem]
  exact rest _ s'

end Calls

end GnomeVfs.Xfer
