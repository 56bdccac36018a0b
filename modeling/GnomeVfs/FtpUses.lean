import GnomeVfs.FtpMaking

/- What the operations of the method leave to come on the connections that they use. -/
namespace GnomeVfs.Ftp

open Interaction

variable {M α : Type}

section Acquire

variable {c p : Nat} {kept : List (Claim M)} {s : Tables M} {v : View M} {pool : Pool}

theorem Owns.lookup (owns : Owns kept s v) (uri : Uri M) :
    Pooled (ftpConnectionPoolLookup uri s).1 kept (ftpConnectionPoolLookup uri s).2 v := by
  obtain ⟨balanced, alive, connections, -⟩ := owns.sound.balanced.lookup uri
  exact ⟨owns.of_connections balanced connections, alive⟩

theorem Pooled.note (pooled : Pooled p kept s v) {f : Pool → Pool}
    (numConnections : ∀ pool, (f pool).numConnections = pool.numConnections)
    (spare : ∀ pool, (f pool).spareConnections = pool.spareConnections)
    (numMonitors : ∀ pool, (f pool).numMonitors = pool.numMonitors) : Owns kept (s.updatePool p f) v := by
  obtain ⟨pool, alive⟩ := Option.isSome_iff_exists.mp pooled.2
  have balanced := pooled.1.sound.balanced.note alive (numConnections _) (spare _) (numMonitors _)
  exact pooled.1.of_connections balanced Tables.connections_updatePool

/-- Nothing is to come on a spare connection that is taken. -/
theorem Pooled.take (pooled : Pooled p kept s v) (alive : s.pool p = some pool) {rest : List Nat}
    (spares : pool.spareConnections = c :: rest) :
    Making c p .used (fun entry ch => InStep entry.record ch) kept
      ((s.move c .used 0).updatePool p fun pool => { pool with spareConnections := rest }) v := by
  obtain ⟨owns, -⟩ := pooled
  obtain ⟨entry, here, own, spare, taken⟩ := Tables.Accounts.take owns.sound.balanced alive spares
  have there : (s.move c .used 0).pool p = some { pool with numConnections := pool.numConnections + 0 } := by
    rw [Tables.pool_move here (by rw [own]; exact alive), if_pos own.symm]
  have entries : ∀ d, ((s.move c .used 0).updatePool p fun pool =>
      { pool with spareConnections := rest }).connections[d]? = _ := fun d => by
    rw [Tables.connections_updatePool, Tables.connections_move here]
  have balanced := taken.balanced (by rw [Tables.connectionPools_updatePool, Tables.connectionPools_move])
    (by rw [Tables.connectionPoolTimeout_updatePool, Tables.connectionPoolTimeout_move])
  have idle : ¬ s.Busy c := by
    rintro ⟨other, found, busy⟩
    rw [here] at found
    cases found
    rw [spare] at busy
    cases busy
  have owed : v.wires.interrupted = false → (v.wires.channels c).owed = [] := fun fine =>
    owns.sound.spares fine c ⟨entry, here, spare⟩
  refine ⟨owns.take (w := v.wires) idle ⟨?_, fun _ _ => rfl, id⟩ ⟨balanced, ?_, owns.sound.stray⟩
    (by rw [entries, if_pos rfl]) rfl rfl owed, ?_, { entry with place := .used },
      by rw [entries, if_pos rfl], own⟩
  · intro d other
    rw [entries, if_neg other]
  · rintro fine d ⟨other, found, isSpare⟩
    rw [entries] at found
    split at found
    · cases found
      cases isSpare
    · exact owns.sound.spares fine d ⟨other, found, isSpare⟩
  · rw [Tables.pool_updatePool there, if_pos rfl]
    rfl

theorem performs_lookup (uri : Uri M) :
    Performs (Owns kept) (modifyGet (ftpConnectionPoolLookup uri)) fun p => Pooled p kept :=
  performs_modifyGet fun _ _ owns => owns.lookup uri

theorem pooled_readPool : Performs (Pooled p kept) (readPool p) fun _ => Pooled p kept := by
  intro s v pooled
  obtain ⟨pool, alive⟩ := Option.isSome_iff_exists.mp pooled.2
  exact (safe_readPool_view alive).mpr pooled

theorem pooled_clock : Performs (Pooled p kept) clock fun _ => Pooled p kept := by
  apply performs_clock
  rintro s ⟨theirs, wires⟩ ⟨theirs', wires'⟩ same same' pooled
  cases same
  cases same'
  exact pooled

theorem bare_pwd : Bare (ascii "PWD") := by decide

variable (proxy : Proxy) (uri : Uri M)

/-- What `ftp_connection_acquire` gives has nothing to come. -/
theorem performs_ftpConnectionAcquire (fuel : Nat) : Performs (Owns kept) (ftpConnectionAcquire proxy fuel uri)
    fun r => Owns (handed InStep kept r) := by
  have timed : ∀ (p : Nat) (done : VfsResult × Option Nat), Performs (Pooled p (handed InStep kept done)) (do
      let now ← clock
      modify fun s => s.updatePool p fun pool => { pool with lastUse := now }
      return done : Method M (VfsResult × Option Nat)) fun r => Owns (handed InStep kept r) := by
    intro p done
    apply pooled_clock.bind
    intro now
    apply Performs.bind (R := fun _ => Owns (handed InStep kept done))
    · exact performs_modify fun _ _ pooled => pooled.note (fun _ => rfl) (fun _ => rfl) fun _ => rfl
    · exact fun _ => performs_pure fun _ _ => id
  have created : ∀ p : Nat, Performs (Pooled p kept) (do
      let done ← ftpConnectionCreate proxy fuel p uri
      let now ← clock
      modify fun s => s.updatePool p fun pool => { pool with lastUse := now }
      return done : Method M (VfsResult × Option Nat)) fun r => Owns (handed InStep kept r) :=
    fun p => (performs_ftpConnectionCreate proxy uri fuel).bind (timed p)
  intro s v owns
  have pooled := owns.lookup uri
  rw [ftpConnectionAcquire, Action.safe_bind, Action.safe_modifyGet]
  generalize (ftpConnectionPoolLookup uri s).1 = p at pooled
  generalize (ftpConnectionPoolLookup uri s).2 = s at pooled
  obtain ⟨pool, alive⟩ := Option.isSome_iff_exists.mp pooled.2
  rw [Action.safe_bind, safe_readPool_view alive]
  dsimp only
  cases spares : pool.spareConnections with
  | nil => exact created p s v pooled
  | cons c rest =>
    have taken := pooled.take alive spares
    rw [Action.safe_bind, Action.safe_modify, Action.safe_bind, Action.safe_modify, Action.safe_bind]
    have renamed : Making c p .used (fun entry ch => True ∧ InStep entry.record ch) kept _ v :=
      taken.amend (e := fun entry => { entry with record := { entry.record with uri := uri, offset := 0 } })
        (fun _ => rfl) (fun _ => rfl) fun _ _ _ inStep => ⟨trivial, inStep⟩
    refine Action.safe_mono (making_onConnection (K := fun _ => True) bare_pwd.ended _ v renamed) ?_ fun _ _ => id
    intro result s v probed
    rw [Action.safe_ite]
    constructor
    · intro _
      rw [Action.safe_bind, Action.safe_modify]
      exact created p _ v probed.destroy
    · intro fine
      have fine := not_not.mp fine
      rw [fine] at probed ⊢
      rw [Action.safe_bind, Action.safe_pure]
      apply timed
      exact ⟨probed.owns.weaken fun _ _ both => both.2 (Or.inl rfl), probed.alive⟩

theorem performs_acquire (fuel : Nat) : Performs (Owns kept) (acquire proxy fuel uri)
    fun r => Owns (handed InStep kept r) :=
  (performs_ftpConnectionAcquire proxy uri fuel).bind fun _ => performs_unlock.bind fun _ => performs_pure fun _ _ => id

/-- What is done with a connection begins with nothing to come on it. -/
theorem performs_withConnection (fuel : Nat) {failed : VfsResult → α} {f : Nat → Method M α}
    {Q : α → Tables M → View M → Prop} (none : ∀ result s v, result ≠ .ok → Owns kept s v → Q (failed result) s v)
    (some : ∀ c, Performs (Owns (uses c InStep :: kept)) (f c) Q) :
    Performs (Owns kept) (withConnection proxy fuel uri failed f) Q := by
  refine (performs_acquire proxy uri fuel).bind fun acquired => ?_
  obtain ⟨result, conn⟩ := acquired
  apply Performs.ite
  · intro failing
    rw [handed_of_ne failing]
    exact performs_pure fun s v => none result s v failing
  · intro fine
    have fine := not_not.mp fine
    rw [fine]
    cases conn with
    | none => exact performs_halt
    | some c => exact some c

end Acquire

section Cache

variable {kept : List (Claim M)}

theorem performs_cachedDirlist (uri : Uri M) : Performs (Owns kept) (cachedDirlist uri) fun _ => Owns kept := by
  refine (performs_lookup uri).bind fun p => pooled_readPool.bind fun pool => ?_
  have unlocked : ∀ handle : Option DirHandle, Performs (Owns kept) (do
      unlock
      return handle : Method M (Option DirHandle)) fun _ => Owns kept := fun _ =>
    performs_unlock.bind fun _ => performs_pure fun _ _ => id
  cases pool.cachedDirlists.lookup (dirlistKey uri) with
  | none => exact (unlocked none).mono (fun _ _ pooled => pooled.1) fun _ _ _ => id
  | some cached =>
    refine pooled_clock.bind fun now => ?_
    refine Performs.bind (performs_unlock.mono (fun _ _ pooled => pooled.1) fun _ _ _ => id) fun _ => ?_
    exact Performs.ite (fun _ => performs_pure fun _ _ => id) fun _ => performs_pure fun _ _ => id

theorem performs_cacheDirlist (uri : Uri M) (dirlist : Bytes) :
    Performs (Owns kept) (cacheDirlist uri dirlist) fun _ => Owns kept := by
  refine (performs_lookup uri).bind fun p => pooled_clock.bind fun now => ?_
  apply Performs.bind (R := fun _ => Owns kept)
  · exact performs_modify fun _ _ pooled => pooled.note (fun _ => rfl) (fun _ => rfl) fun _ => rfl
  · exact fun _ => performs_unlock

theorem performs_invalidateParentDirlistCache (uri : Uri M) :
    Performs (Owns kept) (invalidateParentDirlistCache uri) fun _ => Owns kept := by
  rw [invalidateParentDirlistCache]
  split
  · exact performs_halt
  · refine (performs_lookup _).bind fun p => ?_
    apply Performs.bind (R := fun _ => Owns kept)
    · exact performs_modify fun _ _ pooled => pooled.note (fun _ => rfl) (fun _ => rfl) fun _ => rfl
    · exact fun _ => performs_unlock

end Cache

section Operations

variable {c : Nat} {kept : List (Claim M)} (proxy : Proxy) (fuel : Nat) (uri : Uri M)

theorem bare_path {command : Bytes} (long : 3 ≤ command.length) (bare : isTransfer (command ++ [32]) = false)
    (name : Bytes) : Bare (command ++ 32 :: name) := by
  rw [← List.singleton_append, ← List.append_assoc]
  refine bare_append ?_ bare name
  rw [List.length_append, List.length_singleton]
  omega

theorem bare_chmod (perm : Nat) (name : Bytes) : Bare (ascii "SITE CHMOD " ++ octal perm ++ 32 :: name) := by
  rw [List.append_assoc]
  exact bare_append (by decide) (by decide) _

/-- An exchange that has ended well may be given back. -/
theorem performs_releaseUnlessOk {phase : Phase} (result : VfsResult) :
    Performs (Owns (uses c (Ended phase result) :: kept)) (release c (result ≠ .ok)) fun _ => Owns kept := by
  apply performs_release
  intro entry ch ended fine
  exact ended (Or.inl (not_not.mp (of_decide_eq_false fine)))

theorem performs_destroy {P : Connection M → Channel → Prop} :
    Performs (Owns (uses c P :: kept)) (release c true) fun _ => Owns kept :=
  performs_release true fun _ _ _ never => by cases never

theorem performs_doPathCommandCompletely {command : Bytes} (bare : ∀ name, Bare (command ++ 32 :: name))
    (fivefifty : VfsResult) :
    Performs (Owns kept) (doPathCommandCompletely proxy fuel command uri fivefifty) fun _ => Owns kept := by
  refine performs_withConnection proxy uri fuel (fun _ _ _ _ => id) fun c => ?_
  refine Performs.bind (performs_setRecord (R := InStep) fun _ _ => id) fun _ => ?_
  refine (performs_outside (talks_doPathCommand bare uri)).bind fun result => ?_
  exact (performs_releaseUnlessOk result).bind fun _ => performs_pure fun _ _ => id

theorem handed_ok (P : Connection M → Channel → Prop) (c : Nat) : handed P kept (.ok, some c) = uses c P :: kept := rfl

theorem performs_refused {P : Connection M → Channel → Prop} (result : VfsResult) :
    Performs (Owns kept) (pure (result, none)) fun r => Owns (handed P kept r) := by
  apply performs_pure
  intro s v owns
  rw [handed_none]
  exact owns

/-- A handle has a transfer on its connection. -/
theorem performs_doOpen (mode : OpenMode) : Performs (Owns kept) (doOpen proxy fuel uri mode)
    fun r => Owns (handed Transferring kept r) := by
  apply Performs.ite
  · exact fun _ => performs_refused _
  intro _
  apply Performs.ite
  · exact fun _ => performs_refused _
  intro _
  apply performs_withConnection
  · intro result s v _ owns
    rw [handed_none]
    exact owns
  intro c
  have begun : ∀ result : VfsResult, Performs (Owns (uses c (Begun .transfer result) :: kept)) (do
      if result = .ok then return (result, some c)
      release c true
      return (result, none) : Method M (VfsResult × Option Nat)) fun r => Owns (handed Transferring kept r) := by
    intro result
    apply Performs.ite
    · intro fine
      apply performs_pure
      intro s v owns
      rw [fine] at owns ⊢
      rw [handed_ok]
      exact owns.weaken fun _ _ begun => begun.1 rfl
    · exact fun _ => performs_destroy.bind fun _ => performs_refused _
  dsimp only
  apply Performs.ite
  · intro _
    refine Performs.bind (performs_setRecord (R := InStep) fun _ _ => id) fun _ => ?_
    exact (performs_outside (talks_doPathTransferCommand uri)).bind begun
  · intro _
    refine (performs_invalidateParentDirlistCache uri).bind fun _ => ?_
    refine Performs.bind (performs_setRecord (R := InStep) fun _ _ => id) fun _ => ?_
    refine (performs_outside (talks_doPathTransferCommand uri)).bind fun result => ?_
    refine Performs.bind (performs_setRecord (R := Begun .transfer result) fun _ _ => id) fun _ => ?_
    exact Performs.bind (performs_pure fun _ _ => id) begun

theorem Owns.perm {mine mine' : List (Claim M)} {s : Tables M} {v : View M} (owns : Owns mine s v)
    (same : mine.Perm mine') : Owns mine' s v := by
  have connections := same.map (·.connection)
  refine ⟨owns.sound, owns.framed, connections.nodup_iff.mp owns.distinct, ?_, ?_, ?_⟩
  · intro c
    rw [owns.busy, connections.mem_iff]
  · exact fun c member => owns.apart c (connections.mem_iff.mpr member)
  · exact fun claim member => owns.claims claim (same.mem_iff.mpr member)

/-- What `do_create` does once it knows whether the file is there. -/
theorem performs_probed (mode : OpenMode) (perm : Nat) (result : VfsResult) :
    Performs (Owns (uses c (Begun .create result) :: kept)) (do
        if result ≠ .notFound then
          release c true
          return (if result = .ok then .fileExists else result, none)
        let (result, handle) ← doOpen proxy fuel uri mode
        if result ≠ .ok then
          release c true
          return (result, none)
        let _ ← outside c (doPathCommand .create (ascii "SITE CHMOD " ++ octal perm) uri)
        release c true
        return (result, handle) : Method M (VfsResult × Option Nat)) fun r => Owns (handed Transferring kept r) := by
  apply Performs.ite
  · exact fun _ => performs_destroy.bind fun _ => performs_refused _
  intro missing
  have missing := not_not.mp missing
  rw [missing]
  have opened : Performs (Owns (uses c (Begun .create .notFound) :: kept)) (doOpen proxy fuel uri mode)
      fun r => Owns (handed Transferring (uses c InStep :: kept) r) :=
    (performs_doOpen proxy fuel uri mode).mono
      (fun _ _ owns => owns.weaken fun _ _ begun => begun.2 (by decide) (Or.inr rfl)) fun _ _ _ => id
  refine opened.bind fun r => ?_
  obtain ⟨result, handle⟩ := r
  apply Performs.ite
  · intro failing
    rw [handed_of_ne failing]
    exact performs_destroy.bind fun _ => performs_refused _
  · intro fine
    have fine := not_not.mp fine
    rw [fine]
    have changed : ∀ mine : List (Claim M), handed Transferring kept (.ok, handle) = mine →
        Performs (Owns (uses c InStep :: mine)) (do
          let _ ← outside c (doPathCommand .create (ascii "SITE CHMOD " ++ octal perm) uri)
          release c true
          return (.ok, handle) : Method M (VfsResult × Option Nat)) fun r => Owns (handed Transferring kept r) := by
      rintro mine rfl
      refine (performs_outside (talks_doPathCommand (bare_chmod perm) uri)).bind fun _ => ?_
      exact performs_destroy.bind fun _ => performs_pure fun _ _ => id
    cases handle with
    | none =>
      rw [handed_none]
      exact changed kept (handed_none _ _)
    | some h =>
      apply (changed (uses h Transferring :: kept) rfl).mono ?_ fun _ _ _ => id
      exact fun _ _ owns => owns.perm (List.Perm.swap _ _ _)

theorem performs_doCreate (mode : OpenMode) (exclusive : Bool) (perm : Nat) :
    Performs (Owns kept) (doCreate proxy fuel uri mode exclusive perm) fun r => Owns (handed Transferring kept r) := by
  apply Performs.ite
  · exact fun _ => performs_refused _
  intro _
  apply Performs.ite
  · exact fun _ => performs_refused _
  intro _
  apply performs_withConnection
  · intro result s v _ owns
    rw [handed_none]
    exact owns
  intro c
  dsimp only
  apply Performs.ite
  · intro _
    refine Performs.bind (performs_setRecord (R := InStep) fun _ _ => id) fun _ => ?_
    exact (performs_outside (talks_doPathTransferCommand uri)).bind (performs_probed proxy fuel uri mode perm)
  · intro _
    refine Performs.bind (performs_pure fun _ _ owns => ?_) (performs_probed proxy fuel uri mode perm)
    exact owns.weaken fun _ _ inStep => Ended.begun fun _ => inStep

theorem performs_doClose : Performs (Owns (uses c Transferring :: kept)) (doClose c) fun _ => Owns kept := by
  refine (performs_outside talks_endTransfer).bind fun result => ?_
  exact (performs_releaseUnlessOk result).bind fun _ => performs_pure fun _ _ => id

theorem performs_seekCommand (command : Bytes) (orig : Connection M) :
    Performs (Owns (uses c InStep :: kept)) (do
        let result ← outside c (doPathTransferCommand .seek command orig.uri)
        if result ≠ .ok then setRecord c fun conn => { conn with offset := orig.offset }
        return result : Method M VfsResult) fun _ => Owns (uses c Transferring :: kept) := by
  refine (performs_outside (talks_doPathTransferCommand orig.uri)).bind fun result => ?_
  have left : ∀ (conn : Connection M) (ch : Channel), Begun .seek result conn ch → Transferring conn ch := by
    intro conn ch begun
    by_cases fine : result = .ok
    · exact begun.1 fine
    · exact Or.inl ((begun.2 fine).inStep fun _ => rfl)
  apply Performs.ite
  · intro _
    refine Performs.bind (performs_setRecord (R := Transferring) fun conn ch => left conn ch) fun _ => ?_
    exact performs_pure fun _ _ => id
  · exact fun _ => performs_pure fun _ _ owns => owns.weaken fun _ _ => left _ _

/-- What `do_seek` does at a new offset. -/
theorem performs_seekTo (realOffset : Int) :
    Performs (Owns (uses c Transferring :: kept)) (do
        let _ ← outside c (endTransfer .seek)
        let orig ← readRecord c
        setRecord c fun conn => { conn with offset := realOffset }
        let again (command : Bytes) : Method M VfsResult := do
          let result ← outside c (doPathTransferCommand .seek command orig.uri)
          if result ≠ .ok then setRecord c fun conn => { conn with offset := orig.offset }
          return result
        match orig.operation with
        | .read => again (ascii "RETR")
        | .write => again (ascii "STOR")
        | _ => return .generic : Method M VfsResult) fun _ => Owns (uses c Transferring :: kept) := by
  have ended : Talks (Transferring (M := M)) (endTransfer .seek) fun _ => InStep :=
    talks_endTransfer.mono (fun _ _ => id) fun _ _ _ ended => ended.inStep fun _ => rfl
  refine (performs_outside ended).bind fun _ => performs_readRecord.bind fun orig => ?_
  refine Performs.bind (performs_setRecord (R := InStep) fun _ _ => id) fun _ => ?_
  dsimp only
  cases orig.operation with
  | read => exact performs_seekCommand _ orig
  | write => exact performs_seekCommand _ orig
  | nothing => exact performs_pure fun _ _ owns => owns.weaken fun _ _ => Or.inl
  | readdir => exact performs_pure fun _ _ owns => owns.weaken fun _ _ => Or.inl

/-- Where it fails, the connection is left without a transfer. -/
theorem performs_doSeek (whence : SeekPosition) (offset : Int) :
    Performs (Owns (uses c Transferring :: kept)) (doSeek c whence offset) fun _ => Owns (uses c Transferring :: kept) := by
  refine performs_readRecord.bind fun conn => ?_
  cases whence with
  | start => exact performs_seekTo _
  | current => exact performs_seekTo _
  | «end» => exact performs_pure fun _ _ => id

end Operations

section Directories

variable {kept : List (Claim M)} (proxy : Proxy) (fuel : Nat) (uri : Uri M) (lists : Lists)

theorem bare_cwdName (name : Bytes) : Bare (ascii "CWD" ++ 32 :: name) := bare_path (by decide) (by decide) name

theorem talks_listing (listCmd : Option Bytes) : Talks (InStep (M := M)) (match listCmd with
    | some command => doTransferCommand .transfer command
    | none => getListCommand) fun result conn ch => result = .ok → Transferring conn ch := by
  cases listCmd with
  | some command => exact talks_doTransferCommand.mono (fun _ _ => id) fun _ _ _ begun => begun.1
  | none => exact talks_getListCommand

theorem performs_doOpenDirectory : Performs (Owns kept) (doOpenDirectory proxy fuel uri) fun _ => Owns kept := by
  refine (performs_cachedDirlist uri).bind fun cached => ?_
  cases cached with
  | some handle => exact performs_pure fun _ _ => id
  | none =>
    refine performs_withConnection proxy uri fuel (fun _ _ _ _ => id) fun c => ?_
    refine Performs.bind (performs_setRecord (R := InStep) fun _ _ => id) fun _ => ?_
    refine (performs_outside (talks_doPathCommand bare_cwdName uri)).bind fun result => ?_
    apply Performs.ite
    · exact fun _ => performs_destroy.bind fun _ => performs_pure fun _ _ => id
    intro fine
    have changed : Performs (Owns (uses c (Ended .command result) :: kept)) (readRecord c)
        fun _ => Owns (uses c InStep :: kept) :=
      performs_readRecord.mono (fun _ _ => id) fun _ _ _ owns =>
        owns.weaken fun _ _ ended => ended (Or.inl (not_not.mp fine))
    refine changed.bind fun conn => ?_
    refine (performs_outside (talks_listing conn.listCmd)).bind fun result => ?_
    apply Performs.ite
    · intro _
      refine Performs.bind (performs_destroy (P := fun conn ch => result = .ok → Transferring conn ch)) fun _ => ?_
      exact performs_pure fun _ _ => id
    intro fine
    have read : Performs (Owns (uses c (fun conn ch => result = .ok → Transferring conn ch) :: kept))
        (outside c (readListing fuel)) fun _ => Owns (uses c Transferring :: kept) :=
      (performs_outside (talks_readListing fuel)).mono
        (fun _ _ owns => owns.weaken fun _ _ begun => begun (not_not.mp fine)) fun _ _ _ => id
    refine read.bind fun dirlist => ?_
    refine (performs_outside talks_endTransfer).bind fun result => performs_readRecord.bind fun conn => ?_
    have ended : ∀ (entry : Entry M) (ch : Channel), Ended .listing result entry.record ch → false = false → ch.owed = [] :=
      fun _ _ ended _ => ended.inStep fun _ => rfl
    refine (performs_release false ended).bind fun _ => ?_
    apply Performs.ite
    · exact fun _ => performs_pure fun _ _ => id
    · exact fun _ => (performs_cacheDirlist uri dirlist).bind fun _ => performs_pure fun _ _ => id

theorem performs_getRootInfo : Performs (Owns kept) (getRootInfo proxy fuel uri) fun _ => Owns kept := by
  refine (performs_lookup uri).bind fun p => pooled_readPool.bind fun pool => ?_
  refine Performs.bind (performs_unlock.mono (fun _ _ pooled => pooled.1) fun _ _ _ => id) fun _ => ?_
  apply Performs.ite
  · exact fun _ => performs_pure fun _ _ => id
  intro _
  refine performs_withConnection proxy uri fuel (fun _ _ _ _ => id) fun c => ?_
  exact (performs_release false fun _ _ inStep _ => inStep).bind fun _ => performs_pure fun _ _ => id

theorem performs_getHiddenInfo : Performs (Owns kept) (getHiddenInfo proxy fuel uri) fun _ => Owns kept := by
  refine performs_withConnection proxy uri fuel (fun _ _ _ _ => id) fun c => ?_
  refine (performs_outside (talks_doPathCommand bare_cwdName uri)).bind fun result => ?_
  have ended : ∀ (entry : Entry M) (ch : Channel), Ended .hidden result entry.record ch → false = false → ch.owed = [] :=
    fun _ _ ended _ => ended.inStep fun _ => rfl
  exact (performs_release false ended).bind fun _ => performs_pure fun _ _ => id

theorem performs_doGetFileInfo : Performs (Owns kept) (doGetFileInfo proxy fuel lists uri) fun _ => Owns kept := by
  rw [doGetFileInfo]
  split
  · exact performs_getRootInfo proxy fuel uri
  · split
    · exact performs_pure fun _ _ => id
    · refine (performs_doOpenDirectory proxy fuel _).bind fun opened => ?_
      obtain ⟨result, handle⟩ := opened
      cases handle with
      | none => exact performs_pure fun _ _ => id
      | some handle => exact Performs.ite (fun _ => performs_pure fun _ _ => id) fun _ => performs_getHiddenInfo proxy fuel uri

theorem performs_doMakeDirectory (perm : Nat) :
    Performs (Owns kept) (doMakeDirectory proxy fuel lists uri perm) fun _ => Owns kept := by
  refine (performs_doPathCommandCompletely proxy fuel uri bare_cwdName .notFound).bind fun _ => ?_
  apply Performs.ite
  · exact fun _ => performs_pure fun _ _ => id
  intro _
  refine (performs_doPathCommandCompletely proxy fuel uri (bare_path (by decide) (by decide)) .accessDenied).bind
    fun result => ?_
  apply Performs.ite
  · intro _
    refine (performs_invalidateParentDirlistCache uri).bind fun _ => ?_
    exact (performs_doPathCommandCompletely proxy fuel uri (bare_chmod perm) .accessDenied).bind fun _ =>
      performs_pure fun _ _ => id
  intro _
  apply Performs.ite
  · exact fun _ => performs_pure fun _ _ => id
  · exact fun _ => (performs_doGetFileInfo proxy fuel uri lists).bind fun _ => performs_pure fun _ _ => id

theorem performs_doRemoveDirectory : Performs (Owns kept) (doRemoveDirectory proxy fuel uri) fun _ => Owns kept :=
  (performs_invalidateParentDirlistCache uri).bind fun _ =>
    performs_doPathCommandCompletely proxy fuel uri (bare_path (by decide) (by decide)) .accessDenied

theorem performs_doUnlink : Performs (Owns kept) (doUnlink proxy fuel uri) fun _ => Owns kept :=
  (performs_invalidateParentDirlistCache uri).bind fun _ =>
    performs_doPathCommandCompletely proxy fuel uri (bare_path (by decide) (by decide)) .accessDenied

theorem performs_renameOn (newUri : Uri M) : Performs (Owns kept) (renameOn proxy fuel uri newUri) fun _ => Owns kept := by
  refine performs_withConnection proxy uri fuel (fun _ _ _ _ => id) fun c => ?_
  have released : ∀ result : VfsResult, Performs (Owns (uses c (Ended .command result) :: kept)) (do
      release c (result ≠ .ok)
      invalidateParentDirlistCache uri
      invalidateParentDirlistCache newUri
      return result : Method M VfsResult) fun _ => Owns kept := fun result =>
    (performs_releaseUnlessOk result).bind fun _ => (performs_invalidateParentDirlistCache uri).bind fun _ =>
      (performs_invalidateParentDirlistCache newUri).bind fun _ => performs_pure fun _ _ => id
  refine (performs_outside (talks_doPathCommand (bare_path (by decide) (by decide)) uri)).bind fun result => ?_
  dsimp only
  apply Performs.ite
  · intro fine
    refine Performs.bind (performs_setRecord (R := InStep) fun _ _ ended => ended (Or.inl fine)) fun _ => ?_
    refine (performs_outside (talks_doPathCommand (bare_path (by decide) (by decide)) newUri)).bind fun result => ?_
    refine Performs.bind (performs_setRecord (R := Ended .command result) fun _ _ => id) fun _ => ?_
    exact Performs.bind (performs_pure fun _ _ => id) released
  · exact fun _ => Performs.bind (performs_pure fun _ _ => id) released

theorem performs_doMove (newUri : Uri M) (forceReplace : Bool) :
    Performs (Owns kept) (doMove proxy fuel lists uri newUri forceReplace) fun _ => Owns kept := by
  have moved : ∀ info : VfsResult, Performs (Owns kept) (do
      if info = .ok then return .fileExists
      if Key.of uri = Key.of newUri then renameOn proxy fuel uri newUri else return .notSameFileSystem : Method M VfsResult)
        fun _ => Owns kept := fun _ =>
    Performs.ite (fun _ => performs_pure fun _ _ => id) fun _ =>
      Performs.ite (fun _ => performs_renameOn proxy fuel uri newUri) fun _ => performs_pure fun _ _ => id
  rw [doMove]
  dsimp only
  apply Performs.ite
  · exact fun _ => Performs.bind (performs_pure fun _ _ => id) moved
  · exact fun _ => (performs_doGetFileInfo proxy fuel newUri lists).bind moved

end Directories

end GnomeVfs.Ftp
