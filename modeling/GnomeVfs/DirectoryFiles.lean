import GnomeVfs.XferVisit

/- Visiting a list of files (`gnome-vfs-directory.c`), and which directories are visited for it. -/
namespace GnomeVfs.Xfer

open Interaction

variable {U D : Type} (cfg : Config U) (infoOptions : InfoOptions) (visitOptions : VisitOptions)
  (callback : VisitFunc U D)

/-- The recursion for a listed file. -/
def recurseListed (fuel : Nat) (uri : U) (info : FileInfo) (asked : Bool) (x : VfsResult × D) : XferM U (VfsResult × D) :=
  if asked && info.type = .directory then directoryVisitUri cfg infoOptions visitOptions callback fuel uri x.2
  else pure x

/-- One round of the loop of `gnome_vfs_directory_visit_files_at_uri`. What comes of
`gnome_vfs_get_file_info_uri` is not looked at. -/
def visitListed (fuel : Nat) (uri : U) (name : Bytes) (x : VfsResult × D) :
    XferM U (Step (VfsResult × D) (VfsResult × D)) := do
  let (_, info) ← ask (.getFileInfo (cfg.uris.appendFileName uri name) infoOptions)
  let (go, recurse, data) ← callback info.name info false x.2
  let (result, data) ← recurseListed cfg infoOptions visitOptions callback fuel uri info (go && recurse) (x.1, data)
  if result ≠ .ok || !go then return .finish (result, data) else return .again (result, data)

/-- `gnome_vfs_directory_visit_files_at_uri`. -/
def directoryVisitFilesAtUri (fuel : Nat) (uri : U) (fileList : List Bytes) (data : D) : XferM U (VfsResult × D) := do
  if fileList = [] then return (.badParameters, data)
  else
    let (_, data) ← Action.each (visitListed cfg infoOptions visitOptions callback fuel uri) fileList (.ok, data)
    return (.ok, data)

/-- A visit of a file list as it is meant to be, where `target` is the directory that is visited for a
name: for each name in order a call, and a visit if the callback asks for one and has been shown a
directory, until the callback returns `FALSE` or a visit fails. `visits` are the names for which there was
a visit, with its result. -/
inductive ListedRun (fuel : Nat) (uri : U) (target : Bytes → U) : List Bytes → D → State → Trace U →
    List (Bytes × VfsResult) → VfsResult → D → State → Prop where
  | done {data : D} {s : State} : ListedRun fuel uri target [] data s [] [] .ok data s
  | stopped {name : Bytes} {names : List Bytes} {data data' : D} {s s' : State} {result : VfsResult} {info : FileInfo}
      {recurse : Bool} {called : Trace U} :
      Runs (callback info.name info false data s) called (.returned ((false, recurse, data'), s')) →
      ListedRun fuel uri target (name :: names) data s
        (⟨.getFileInfo (cfg.uris.appendFileName uri name) infoOptions, (result, info)⟩ :: called) [] .ok data' s'
  | passed {name : Bytes} {names : List Bytes} {data data' data'' : D} {s s' s'' : State} {result final : VfsResult}
      {info : FileInfo} {recurse : Bool} {called rest : Trace U} {visits : List (Bytes × VfsResult)} :
      Runs (callback info.name info false data s) called (.returned ((true, recurse, data'), s')) →
      ¬ (recurse = true ∧ info.type = .directory) →
      ListedRun fuel uri target names data' s' rest visits final data'' s'' →
      ListedRun fuel uri target (name :: names) data s
        (⟨.getFileInfo (cfg.uris.appendFileName uri name) infoOptions, (result, info)⟩ :: (called ++ rest)) visits final
        data'' s''
  | visited {name : Bytes} {names : List Bytes} {data data' data'' data''' : D} {s s' s'' s''' : State}
      {result final : VfsResult} {info : FileInfo} {called visit rest : Trace U}
      {visits : List (Bytes × VfsResult)} :
      Runs (callback info.name info false data s) called (.returned ((true, true, data'), s')) →
      info.type = .directory →
      Runs (directoryVisitUri cfg infoOptions visitOptions callback fuel (target name) data' s') visit
        (.returned ((.ok, data''), s'')) →
      ListedRun fuel uri target names data'' s'' rest visits final data''' s''' →
      ListedRun fuel uri target (name :: names) data s
        (⟨.getFileInfo (cfg.uris.appendFileName uri name) infoOptions, (result, info)⟩ :: (called ++ (visit ++ rest)))
        ((name, .ok) :: visits) final data''' s'''
  | failed {name : Bytes} {names : List Bytes} {data data' data'' : D} {s s' s'' : State} {result final : VfsResult}
      {info : FileInfo} {called visit : Trace U} :
      Runs (callback info.name info false data s) called (.returned ((true, true, data'), s')) →
      info.type = .directory →
      Runs (directoryVisitUri cfg infoOptions visitOptions callback fuel (target name) data' s') visit
        (.returned ((final, data''), s'')) → final ≠ .ok →
      ListedRun fuel uri target (name :: names) data s
        (⟨.getFileInfo (cfg.uris.appendFileName uri name) infoOptions, (result, info)⟩ :: (called ++ visit))
        [(name, final)] final data'' s''

section Runs

variable {cfg infoOptions visitOptions callback} {fuel : Nat} {uri : U} {names : List Bytes} {name : Bytes}
  {data data' : D} {s s' : State} {trace : Trace U} {result : VfsResult}
  {r : Step (VfsResult × D) (VfsResult × D)}

/-- A round of the loop: a call, and a visit of the base URI where the callback asks for one. -/
theorem visitListed_runs
    (run : Runs (visitListed cfg infoOptions visitOptions callback fuel uri name (.ok, data) s) trace (.returned (r, s'))) :
    ∃ found info called go recurse data₁ s₁ back,
      trace = ⟨.getFileInfo (cfg.uris.appendFileName uri name) infoOptions, (found, info)⟩ :: (called ++ back) ∧
      Runs (callback info.name info false data s) called (.returned ((go, recurse, data₁), s₁)) ∧
      ((go = true ∧ recurse = true ∧ info.type = .directory) ∧ (∃ result data₂,
          Runs (directoryVisitUri cfg infoOptions visitOptions callback fuel uri data₁ s₁) back
            (.returned ((result, data₂), s')) ∧
          r = if result = .ok then .again (result, data₂) else .finish (result, data₂)) ∨
        ¬ (go = true ∧ recurse = true ∧ info.type = .directory) ∧ back = [] ∧ s' = s₁ ∧
          r = if go = true then .again (.ok, data₁) else .finish (.ok, data₁)) := by
  rw [visitListed] at run
  obtain ⟨⟨found, info⟩, tail, rfl, rest⟩ := runs_ask_bind.mp run
  rcases Runs.bind_cases rest with ⟨called, back, ⟨⟨go, recurse, data₁⟩, s₁⟩, rfl, first, second⟩ | ⟨_, _, same⟩
  · rcases Runs.bind_cases second with ⟨visit, last, ⟨⟨result, data₂⟩, s₂⟩, rfl, visited, ended⟩ | ⟨_, _, same⟩
    · refine ⟨found, info, called, go, recurse, data₁, s₁, visit ++ last, rfl, first, ?_⟩
      have step : last = [] ∧ s₂ = s' ∧ r = if result = .ok ∧ go = true then .again (result, data₂) else .finish (result, data₂) := by
        dsimp only at ended
        split at ended
        · rename_i ends
          obtain ⟨rfl, same⟩ := runs_pure ended
          obtain ⟨rfl, rfl⟩ := Prod.mk.inj same
          exact ⟨rfl, rfl, (if_neg (by simpa [imp_iff_not_or] using ends)).symm⟩
        · rename_i goesOn
          obtain ⟨rfl, same⟩ := runs_pure ended
          obtain ⟨rfl, rfl⟩ := Prod.mk.inj same
          exact ⟨rfl, rfl, (if_pos (by simpa using goesOn)).symm⟩
      obtain ⟨rfl, rfl, rfl⟩ := step
      rw [List.append_nil]
      rw [recurseListed] at visited
      split at visited
      · rename_i asked
        have asked : (go = true ∧ recurse = true) ∧ info.type = .directory := by simpa using asked
        refine .inl ⟨⟨asked.1.1, asked.1.2, asked.2⟩, result, data₂, visited, ?_⟩
        rw [asked.1.1]
        simp
      · rename_i asked
        obtain ⟨rfl, same⟩ := runs_pure visited
        cases same
        refine .inr ⟨fun all => asked (by simp [all.1, all.2.1, all.2.2]), rfl, rfl, ?_⟩
        simp
    · cases same
  · cases same

/-- The loop visits the base URI for every name. -/
theorem listedRun_of_each : ∀ {names : List Bytes} {data : D} {s : State} {trace : Trace U},
    Runs (Action.each (visitListed cfg infoOptions visitOptions callback fuel uri) names (.ok, data) s) trace
      (.returned ((result, data'), s')) →
    ∃ visits, ListedRun cfg infoOptions visitOptions callback fuel uri (fun _ => uri) names data s trace visits result
      data' s' := by
  intro names
  induction names with
  | nil =>
    intro data s trace run
    cases run
    exact ⟨[], .done⟩
  | cons name names ih =>
    intro data s trace run
    rcases Runs.bind_cases run with ⟨front, back, ⟨r, s₁⟩, rfl, first, second⟩ | ⟨_, _, same⟩
    · obtain ⟨found, info, called, go, recurse, data₁, s₂, visit, rfl, call, ⟨⟨rfl, rfl, directory⟩, result₁, data₂, visited,
        ended⟩ | ⟨asked, rfl, rfl, ended⟩⟩ := visitListed_runs first
      · by_cases fine : result₁ = .ok
        · rw [if_pos fine] at ended
          subst ended fine
          obtain ⟨visits, rest⟩ := ih second
          exact ⟨_, by simpa using ListedRun.visited call directory visited rest⟩
        · rw [if_neg fine] at ended
          subst ended
          cases second
          exact ⟨_, by simpa using ListedRun.failed call directory visited fine⟩
      · cases go with
        | true =>
          rw [if_pos rfl] at ended
          subst ended
          obtain ⟨visits, rest⟩ := ih second
          exact ⟨_, by simpa using ListedRun.passed call (fun both => asked ⟨rfl, both⟩) rest⟩
        | false =>
          rw [if_neg Bool.false_ne_true] at ended
          subst ended
          cases second
          exact ⟨_, by simpa using ListedRun.stopped call⟩
    · cases same

theorem directoryVisitUri_begins {target : U} {visit : Trace U} {out : (VfsResult × D) × State}
    (run : Runs (directoryVisitUri cfg infoOptions visitOptions callback fuel target data s) visit (.returned out)) :
    ∃ reply rest, visit = ⟨.getFileInfo target infoOptions, reply⟩ :: rest := by
  obtain ⟨reply, rest, rfl, -⟩ := runs_ask_bind.mp run
  exact ⟨reply, rest, rfl⟩

theorem visits_same {target target' : U} {visit visit' rest rest' : Trace U} {out out' : (VfsResult × D) × State}
    (first : Runs (directoryVisitUri cfg infoOptions visitOptions callback fuel target data s) visit (.returned out))
    (second : Runs (directoryVisitUri cfg infoOptions visitOptions callback fuel target' data s) visit' (.returned out'))
    (same : visit ++ rest = visit' ++ rest') : target' = target ∧ out = out' ∧ rest = rest' := by
  obtain ⟨reply, more, rfl⟩ := directoryVisitUri_begins first
  obtain ⟨reply', more', rfl⟩ := directoryVisitUri_begins second
  have head := congrArg (fun trace => trace.head?.map Event.request) same
  simp only [List.cons_append, List.head?_cons, Option.map_some, Option.some.injEq, Op.getFileInfo.injEq, and_true] at head
  subst head
  obtain ⟨-, out, rest⟩ := first.front_unique second same
  exact ⟨rfl, out, rest⟩

variable {target : Bytes → U} {visits : List (Bytes × VfsResult)}

theorem ListedRun.retarget
    (run : ListedRun cfg infoOptions visitOptions callback fuel uri (fun _ => uri) names data s trace visits result data' s')
    (same : ∀ v ∈ visits, target v.1 = uri ∧ v.2 = .ok) :
    ListedRun cfg infoOptions visitOptions callback fuel uri target names data s trace visits .ok data' s' := by
  induction run with
  | done => exact .done
  | stopped call => exact .stopped call
  | passed call asked _ ih => exact .passed call asked (ih same)
  | visited call directory visit _ ih =>
    obtain ⟨here, -⟩ := same _ List.mem_cons_self
    refine .visited call directory ?_ (ih fun v member => same v (List.mem_cons_of_mem _ member))
    rw [here]
    exact visit
  | failed _ _ _ failed => exact absurd (same _ List.mem_cons_self).2 failed

/-- What a visit makes of its first name. -/
theorem ListedRun.cons_cases {final : VfsResult}
    (run : ListedRun cfg infoOptions visitOptions callback fuel uri target (name :: names) data s trace visits final data' s') :
    ∃ (found : VfsResult) (info : FileInfo) (called back : Trace U) (go recurse : Bool) (data₁ : D) (s₁ : State),
      trace = ⟨.getFileInfo (cfg.uris.appendFileName uri name) infoOptions, (found, info)⟩ :: (called ++ back) ∧
      Runs (callback info.name info false data s) called (.returned ((go, recurse, data₁), s₁)) ∧
      (go = false ∨
        (¬ (recurse = true ∧ info.type = .directory) ∧ ∃ visits',
          ListedRun cfg infoOptions visitOptions callback fuel uri target names data₁ s₁ back visits' final data' s') ∨
        ((recurse = true ∧ info.type = .directory) ∧ ∃ visit rest result data₂ s₂, back = visit ++ rest ∧
          Runs (directoryVisitUri cfg infoOptions visitOptions callback fuel (target name) data₁ s₁) visit
            (.returned ((result, data₂), s₂)) ∧
          (result ≠ .ok ∧ final = result ∨ result = .ok ∧ ∃ visits',
            ListedRun cfg infoOptions visitOptions callback fuel uri target names data₂ s₂ rest visits' final data' s'))) := by
  cases run with
  | stopped call => exact ⟨_, _, _, [], _, _, _, _, by rw [List.append_nil], call, .inl rfl⟩
  | passed call asked rest => exact ⟨_, _, _, _, _, _, _, _, rfl, call, .inr (.inl ⟨asked, _, rest⟩)⟩
  | visited call directory visit rest =>
    exact ⟨_, _, _, _, _, _, _, _, rfl, call, .inr (.inr ⟨⟨rfl, directory⟩, _, _, _, _, _, rfl, visit, .inr ⟨rfl, _, rest⟩⟩)⟩
  | failed call directory visit failed =>
    exact ⟨_, _, _, _, _, _, _, _, rfl, call,
      .inr (.inr ⟨⟨rfl, directory⟩, _, [], _, _, _, (List.append_nil _).symm, visit, .inl ⟨failed, rfl⟩⟩)⟩

/-- The same behind a call that has gone on. -/
theorem ListedRun.behind {found final : VfsResult} {info : FileInfo} {called back : Trace U} {recurse : Bool}
    {data₁ : D} {s₁ : State}
    (run : ListedRun cfg infoOptions visitOptions callback fuel uri target (name :: names) data s
      (⟨.getFileInfo (cfg.uris.appendFileName uri name) infoOptions, (found, info)⟩ :: (called ++ back)) visits final data' s')
    (call : Runs (callback info.name info false data s) called (.returned ((true, recurse, data₁), s₁))) :
    (¬ (recurse = true ∧ info.type = .directory) ∧ ∃ visits',
        ListedRun cfg infoOptions visitOptions callback fuel uri target names data₁ s₁ back visits' final data' s') ∨
      ((recurse = true ∧ info.type = .directory) ∧ ∃ visit rest result data₂ s₂, back = visit ++ rest ∧
        Runs (directoryVisitUri cfg infoOptions visitOptions callback fuel (target name) data₁ s₁) visit
          (.returned ((result, data₂), s₂)) ∧
        (result ≠ .ok ∧ final = result ∨ result = .ok ∧ ∃ visits',
          ListedRun cfg infoOptions visitOptions callback fuel uri target names data₂ s₂ rest visits' final data' s')) := by
  obtain ⟨_, info', called', back', go, recurse', data₂, s₂, same, call', next⟩ := run.cons_cases
  rw [List.cons.injEq, Event.mk.injEq] at same
  obtain ⟨⟨-, reply⟩, same⟩ := same
  cases reply
  obtain ⟨-, out, rfl⟩ := call.front_unique call' same
  cases out
  exact next.resolve_left Bool.true_eq_false.mp

/-- A run that is as it is meant to be, and that a run over the base URI is too, makes no other visits. -/
theorem ListedRun.trivial
    (run : ListedRun cfg infoOptions visitOptions callback fuel uri (fun _ => uri) names data s trace visits result data' s') :
    ∀ {visits' : List (Bytes × VfsResult)},
      ListedRun cfg infoOptions visitOptions callback fuel uri target names data s trace visits' .ok data' s' →
      ∀ v ∈ visits, target v.1 = uri ∧ v.2 = .ok := by
  induction run with
  | done => exact fun _ => List.forall_mem_nil _
  | stopped _ => exact fun _ => List.forall_mem_nil _
  | passed call asked _ ih =>
    intro visits' meant
    rcases meant.behind call with ⟨-, visits', rest⟩ | ⟨both, -⟩
    · exact ih rest
    · exact absurd both asked
  | visited call directory visit _ ih =>
    intro visits' meant
    rcases meant.behind call with ⟨asked, -⟩ | ⟨-, visit', rest, result, data₂, s₂, split, visited, ended⟩
    · exact absurd ⟨rfl, directory⟩ asked
    · obtain ⟨here, out, rfl⟩ := visits_same visit visited split
      cases out
      obtain ⟨-, visits', later⟩ := ended.resolve_left fun failed => failed.1 rfl
      rw [List.forall_mem_cons]
      exact ⟨⟨here, rfl⟩, ih later⟩
  | failed call directory visit failed =>
    intro visits' meant
    rcases meant.behind call with ⟨asked, -⟩ | ⟨-, visit', rest, result, data₂, s₂, split, visited, ended⟩
    · exact absurd ⟨rfl, directory⟩ asked
    · obtain ⟨-, out, -⟩ := visits_same visit visited ((List.append_nil _).trans split)
      cases out
      rcases ended with ⟨-, fine⟩ | ⟨fine, -⟩
      · exact absurd fine.symm failed
      · exact absurd fine failed

/-- A visit of a file list that returns has told the truth, and has visited what it was to visit, exactly if
it has made no visit but of the base URI itself, in its own place, with success. -/
theorem directoryVisitFilesAtUri_follows_iff (listed : names ≠ [])
    (run : Runs (directoryVisitFilesAtUri cfg infoOptions visitOptions callback fuel uri names data s) trace
      (.returned ((result, data'), s'))) :
    ∃ visits final,
      ListedRun cfg infoOptions visitOptions callback fuel uri (fun _ => uri) names data s trace visits final data' s' ∧
      ((∃ visits', ListedRun cfg infoOptions visitOptions callback fuel uri (cfg.uris.appendFileName uri) names data s trace
          visits' result data' s') ↔ ∀ v ∈ visits, cfg.uris.appendFileName uri v.1 = uri ∧ v.2 = .ok) := by
  rw [directoryVisitFilesAtUri, if_neg listed] at run
  rcases Runs.bind_cases run with ⟨front, back, ⟨⟨final, data₁⟩, s₁⟩, rfl, first, second⟩ | ⟨_, _, same⟩
  · obtain ⟨rfl, same⟩ := runs_pure second
    cases same
    obtain ⟨visits, listed⟩ := listedRun_of_each first
    rw [List.append_nil]
    refine ⟨visits, final, listed, ?_⟩
    constructor
    · rintro ⟨visits', meant⟩
      exact listed.trivial meant
    · intro all
      exact ⟨visits, listed.retarget all⟩
  · cases same

end Runs

/-- Everything is a directory, and the first that is read has a file. -/
def listedReply : Nat → (op : Op Bytes) → op.Reply × Nat
  | reads, .getFileInfo u _ => ((.ok, { name := u, type := .directory }), reads)
  | 0, .readNext _ => ((.ok, { name := ascii "f", type := .regular }), 1)
  | reads, op => (calmReply op, reads)

def recurseAlways : VisitFunc Bytes Unit := fun _ _ _ data => pure (true, true, data)

/-- `d` in `/r` is listed, and the callback asks for it. -/
def visitListedD : XferM Bytes (VfsResult × Unit) :=
  directoryVisitFilesAtUri (plainConfig {}) {} {} recurseAlways 5 (ascii "/r") [ascii "d"] ()

def listedRun : Trace Bytes × Outcome Stop ((VfsResult × Unit) × State) :=
  Prog.exec listedReply (visitListedD { overwriteMode := .abort }) 0

theorem visitListedD_runs : ∃ s, Runs (visitListedD { overwriteMode := .abort }) listedRun.1 (.returned ((.ok, ()), s)) := by
  obtain ⟨s, returned⟩ : ∃ s, listedRun.2 = .returned ((.ok, ()), s) := ⟨_, rfl⟩
  exact ⟨s, returned ▸ Prog.exec_runs listedReply _ _⟩

theorem directoryVisitFilesAtUri_follows_iff_d : ∃ s visits final,
    ListedRun (plainConfig {}) {} {} recurseAlways 5 (ascii "/r") (fun _ => ascii "/r") [ascii "d"] ()
      { overwriteMode := .abort } listedRun.1 visits final () s ∧
    ((∃ visits', ListedRun (plainConfig {}) {} {} recurseAlways 5 (ascii "/r")
        ((plainConfig {}).uris.appendFileName (ascii "/r")) [ascii "d"] () { overwriteMode := .abort } listedRun.1 visits'
        .ok () s) ↔ ∀ v ∈ visits, (plainConfig {}).uris.appendFileName (ascii "/r") v.1 = ascii "/r" ∧ v.2 = .ok) := by
  obtain ⟨s, run⟩ := visitListedD_runs
  obtain ⟨visits, final, follows⟩ := directoryVisitFilesAtUri_follows_iff (List.cons_ne_nil _ _) run
  exact ⟨s, visits, final, follows⟩

/-- The visit for `d` is one of `/r`. -/
theorem directoryVisitFilesAtUri_strays : ∃ trace s,
    Runs (visitListedD { overwriteMode := .abort }) trace (.returned ((.ok, ()), s)) ∧
    ¬ ∃ visits, ListedRun (plainConfig {}) {} {} recurseAlways 5 (ascii "/r")
      ((plainConfig {}).uris.appendFileName (ascii "/r")) [ascii "d"] () { overwriteMode := .abort } trace visits .ok () s := by
  obtain ⟨s, run⟩ := visitListedD_runs
  refine ⟨_, s, run, ?_⟩
  rintro ⟨visits, meant⟩
  have call : Runs (recurseAlways (ascii "/r/d") { name := ascii "/r/d", type := .directory } false () { overwriteMode := .abort })
      ([] : Trace Bytes) (.returned ((true, true, ()), { overwriteMode := .abort })) := .done _
  have seen : ListedRun (plainConfig {}) {} {} recurseAlways 5 (ascii "/r") ((plainConfig {}).uris.appendFileName (ascii "/r"))
      [ascii "d"] () { overwriteMode := .abort }
      (⟨.getFileInfo (ascii "/r/d") {}, (.ok, { name := ascii "/r/d", type := .directory })⟩ :: ([] ++ listedRun.1.tail)) visits
      .ok () s := meant
  rcases seen.behind call with ⟨asked, -⟩ | ⟨-, visit, rest, _, _, _, split, visited, -⟩
  · exact asked ⟨rfl, rfl⟩
  · obtain ⟨reply, more, rfl⟩ := directoryVisitUri_begins visited
    have head : Op.getFileInfo (ascii "/r") {} = Op.getFileInfo (ascii "/r/d") {} :=
      Option.some.inj (congrArg (fun trace => trace.head?.map Event.request) split)
    exact absurd (Op.getFileInfo.inj head).1 (by decide)

end GnomeVfs.Xfer
