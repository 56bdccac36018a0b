import GnomeVfs.XferTransfer

/- What it means that an object has been copied completely. It is read off the events of a
run, without regard to what the functions of the transfer return. -/
namespace GnomeVfs.Xfer

open Interaction

variable {U : Type}

def FileType.copyable : FileType → Bool
  | .regular | .directory | .symbolicLink => true
  | _ => false

/-- The bytes that a call takes from a file. Those of a failed call have no meaning. -/
def bytesRead (handle : Handle) : XferEvent U → Bytes
  | ⟨.read h _, r⟩ => if h = handle ∧ (r.1 = .ok ∨ r.1 = .eof) then r.2.1 else []
  | _ => []

def bytesWritten (handle : Handle) : XferEvent U → Bytes
  | ⟨.write h buffer, r⟩ => if h = handle then buffer.take r.2 else []
  | _ => []

/-- All that is read is written, and the reading goes on to the end of the file. -/
structure DataCopied (source target : Handle) (data : Trace U) : Prop where
  written : data.flatMap (bytesWritten target) = data.flatMap (bytesRead source)
  ended : ∃ before bytes r, data = before ++ [⟨.read source bytes, r⟩] ∧ 0 < bytes ∧
    (r.1 = .eof ∨ (r.1 = .ok ∧ r.2.1 = []))

/-- Nothing is read, neither of a file nor of a directory, and nothing is written. -/
def Still : XferEvent U → Prop
  | ⟨.read _ _, _⟩ | ⟨.write _ _, _⟩ | ⟨.readNext _, _⟩ => False
  | _ => True

/-- What is read is read of the one file, and what is written is written into the other. -/
def Carries (source target : Handle) : XferEvent U → Prop
  | ⟨.read handle _, _⟩ => handle = source
  | ⟨.write handle _, _⟩ => handle = target
  | ⟨.readNext _, _⟩ => False
  | _ => True

abbrev Quiet (trace : Trace U) : Prop := ∀ e ∈ trace, Still e

theorem Quiet.append {front back : Trace U} (first : Quiet front) (second : Quiet back) : Quiet (front ++ back) :=
  fun e member => (List.mem_append.mp member).elim (first e) (second e)

/-- The file is opened and the target is created, and all that is read and written is the data of the one
and the other. -/
def FileCopied (source target : U) (trace : Trace U) : Prop :=
  ∃ front sourceHandle middle exclusive targetHandle gap data back,
    trace = front ++ ⟨.openUri source, (.ok, sourceHandle)⟩ :: (middle ++
      ⟨.createUri target exclusive, (.ok, targetHandle)⟩ :: (gap ++ data ++ back)) ∧
    (Quiet front ∧ Quiet middle ∧ Quiet gap ∧ Quiet back) ∧
    (∀ e ∈ data, Carries sourceHandle targetHandle e) ∧ DataCopied sourceHandle targetHandle data

theorem FileCopied.cons {source target : U} {trace : Trace U} (copied : FileCopied source target trace)
    {e : XferEvent U} (still : Still e) : FileCopied source target (e :: trace) := by
  obtain ⟨front, sourceHandle, middle, exclusive, targetHandle, gap, data, back, rfl, ⟨quiet, others⟩, done⟩ := copied
  exact ⟨e :: front, sourceHandle, middle, exclusive, targetHandle, gap, data, back, rfl,
    ⟨List.forall_mem_cons.mpr ⟨still, quiet⟩, others⟩, done⟩

/-- The directory is made. Unless one is `strict` it may be there already. -/
def DirectoryMade (strict : Bool) (target : U) (trace : Trace U) : Prop :=
  ⟨.makeDirectory target, VfsResult.ok⟩ ∈ trace ∨
    (strict = false ∧ ⟨.makeDirectory target, VfsResult.fileExists⟩ ∈ trace ∧
      ∃ handle, ⟨.openDirectory target {}, (VfsResult.ok, handle)⟩ ∈ trace)

theorem DirectoryMade.append {strict : Bool} {target : U} {trace : Trace U}
    (made : DirectoryMade strict target trace) (before after : Trace U) :
    DirectoryMade strict target (before ++ trace ++ after) := by
  have kept : ∀ e ∈ trace, e ∈ before ++ trace ++ after := by
    intro e member
    simp [member]
  rcases made with fresh | ⟨lenient, found, handle, opened⟩
  · exact Or.inl (kept _ fresh)
  · exact Or.inr ⟨lenient, kept _ found, handle, kept _ opened⟩

mutual

/-- The events are a complete copy of one object. Unless one is `strict` the file behind a
link may be copied in its place, where that is asked for. -/
inductive Copied (cfg : Config U) (strict : Bool) : FileInfo → U → U → Trace U → Prop where
  | file {info : FileInfo} {source target : U} {trace : Trace U} :
      info.type = .regular → FileCopied source target trace → Copied cfg strict info source target trace
  | link {info : FileInfo} {source target : U} {trace : Trace U} :
      info.type = .symbolicLink → Quiet trace →
      ⟨.createSymbolicLink target info.symlinkName, VfsResult.ok⟩ ∈ trace →
      Copied cfg strict info source target trace
  | followed {info : FileInfo} {source target : U} {trace : Trace U} :
      strict = false → cfg.options.followLinksRecursive = true → info.type = .symbolicLink →
      FileCopied source target trace → Copied cfg strict info source target trace
  | directory {info : FileInfo} {source target : U} {handle : Handle}
      {opening entries closing : Trace U} :
      info.type = .directory → Quiet opening → DirectoryMade strict target opening →
      Entries cfg strict handle source target entries → Quiet closing →
      Copied cfg strict info source target
        (⟨.openDirectory source {}, (VfsResult.ok, handle)⟩ :: (opening ++ entries ++ closing))

/-- The events go through all entries of a directory and copy each of them completely. -/
inductive Entries (cfg : Config U) (strict : Bool) : Handle → U → U → Trace U → Prop where
  | done {handle : Handle} {source target : U} (info : FileInfo) :
      Entries cfg strict handle source target [⟨.readNext handle, (.eof, info)⟩]
  | dots {handle : Handle} {source target : U} {info : FileInfo} {rest : Trace U} :
      isDots info.name = true → Entries cfg strict handle source target rest →
      Entries cfg strict handle source target (⟨.readNext handle, (.ok, info)⟩ :: rest)
  | child {handle : Handle} {source target : U} {info : FileInfo} {child rest : Trace U}
      (garbage : Bool) :
      Copied cfg strict info (cfg.uris.appendFileName source info.name)
        (cfg.uris.appendFileName target info.name) child →
      Entries cfg strict handle source target rest →
      Entries cfg strict handle source target
        (⟨.readNext handle, (.ok, info)⟩ :: ⟨.undefined, garbage⟩ :: (child ++ rest))

end

/-- The item that was looked at as `uri` has been copied completely. -/
def ItemCopied (cfg : Config U) (strict : Bool) (uri : U) (trace : Trace U) : Prop :=
  ∃ info target front middle copy back,
    trace = front ++ ⟨.getFileInfo uri {}, (.ok, info)⟩ :: (middle ++ copy ++ back) ∧
    Copied cfg strict info uri target copy

/-- The steps of a run that the transfer gets wrong: an object of another type, a callback that cancels
where the answer is taken for success, an `EOF` that is handed on and taken for the end of a directory, and
an `EOF` that comes with bytes. An `EOF` is handed on by the calls whose errors are not asked about, and by
an answer that is none of the actions. For a `strict` reader also a directory that is there already, and a
link that is followed. -/
def harmful (cfg : Config U) (strict : Bool) : XferEvent U → Bool
  | ⟨.notify n, a⟩ =>
    match n.site with
    | .copyItem type => !type.copyable && n.heard a 1 ≠ 0
    | .targetCreated => n.heard a 1 = 0
    | .directoryCreated found => eofToOk found = .ok && n.heard a 1 = 0
    | .handleError => n.info.vfsStatus = .eof &&
      n.heard a errorActionAbort ∉ [errorActionAbort, errorActionRetry, errorActionSkip]
    | _ => false
  | ⟨.readNext _, r⟩ => r.1 = .ok && !isDots r.2.name && (!r.2.type.copyable ||
      strict && r.2.type = .symbolicLink && cfg.options.followLinksRecursive)
  | ⟨.read _ _, r⟩ => r.1 = .eof && r.2.1 ≠ []
  | ⟨.getFileInfo _ options, r⟩ => options.followLinks && r.1 = .eof
  | ⟨.getFileInfoFromHandle _, r⟩ => r.1 = .eof
  | ⟨.openDirectory _ _, r⟩ => r.1 = .eof
  | ⟨.close _, r⟩ => r = .eof
  | ⟨.makeDirectory _, r⟩ => cfg.errorMode = .abort && r = .eof || strict && r = .fileExists
  | ⟨.openUri _, r⟩ => cfg.errorMode = .abort && r.1 = .eof
  | ⟨.createUri _ _, r⟩ => cfg.errorMode = .abort && r.1 = .eof
  | ⟨.write _ _, r⟩ => cfg.errorMode = .abort && r.1 = .eof
  | ⟨.unlink _, r⟩ => cfg.errorMode = .abort && r = .eof
  | ⟨.createSymbolicLink _ _, r⟩ => cfg.errorMode = .abort && r = .eof
  | _ => false

end GnomeVfs.Xfer
