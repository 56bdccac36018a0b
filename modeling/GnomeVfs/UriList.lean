import Mathlib.Data.List.Chain
import Mathlib.Data.List.DropRight
import GnomeVfs.UriRoundtrip

/- Lists of URIs, as they come from a drop operation. -/
namespace GnomeVfs

variable {Method : Type}

abbrev chrLineFeed : UInt8 := 10
abbrev chrReturn : UInt8 := 13

/-- `g_ascii_isspace`. -/
def isAsciiSpace (c : UInt8) : Bool := c = 32 || c = 9 || c = chrLineFeed || c = 12 || c = chrReturn

/-- White space is dropped at the end, up to the first byte. -/
def trimEnd : Bytes → Bytes
  | [] => []
  | c :: rest => c :: rest.rdropWhile isAsciiSpace

def isLineByte (c : UInt8) : Bool := c ≠ chrLineFeed && c ≠ chrReturn

/-- One round at `p`: the text that is taken, if any, and where `p` is afterwards. -/
def uriListRound (p : Bytes) : Option Bytes × Bytes :=
  if p.head? = some chrHash then (none, p)
  else
    let p := p.dropWhile isAsciiSpace
    let text := p.takeWhile isLineByte
    (if text = [] then none else some (trimEnd text), p)

def uriListLoop (ctx : UriContext Method) : Nat → Bytes → List (Uri Method) → List (Uri Method)
  | 0, _, result => result
  | fuel + 1, p, result =>
    let (text, p) := uriListRound p
    let result := ((text.bind (uriNew ctx)).map (· :: result)).getD result
    match strchr p chrLineFeed with
    | some (_ :: p) => uriListLoop ctx fuel p result
    | _ => result

/-- `gnome_vfs_uri_list_parse`. Each round passes a line feed. -/
def uriListParse (ctx : UriContext Method) (uriList : Bytes) : List (Uri Method) :=
  (uriListLoop ctx (uriList.length + 1) uriList []).reverse

/-- The text of a line that the loop takes. -/
def lineText (line : Bytes) : Bytes := trimEnd ((line.dropWhile isAsciiSpace).takeWhile isLineByte)

/-- The texts that the loop takes, line by line. Behind a blank line it does not look for comments. -/
def reachedTexts : Bool → List Bytes → List Bytes
  | _, [] => []
  | skipping, line :: rest =>
    if skipping = false ∧ line.head? = some chrHash then reachedTexts false rest
    else if line.dropWhile isAsciiSpace = [] then reachedTexts true rest
    else lineText line :: reachedTexts false rest

variable {rest : List Bytes}

theorem reachedTexts_of_ne {line : Bytes} (other : line.head? ≠ some chrHash) :
    reachedTexts false (line :: rest) = reachedTexts true (line :: rest) := by
  simp [reachedTexts, other]

theorem line_cases (p : Bytes) : (chrLineFeed ∉ p ∧ p.splitOn chrLineFeed = [p] ∧ strchr p chrLineFeed = none) ∨
    ∃ line rest, p = line ++ chrLineFeed :: rest ∧ chrLineFeed ∉ line ∧
      p.splitOn chrLineFeed = line :: rest.splitOn chrLineFeed := by
  by_cases inside : chrLineFeed ∈ p
  · obtain ⟨line, rest, rfl, single⟩ := List.eq_append_cons_of_mem inside
    exact Or.inr ⟨line, rest, rfl, single, List.splitOn_append_cons_self_of_not_mem single rest⟩
  · refine Or.inl ⟨inside, List.splitOn_eq_singleton inside, ?_⟩
    rw [strchr, scanTo_eq_none]
    intro c member
    simp only [beq_eq_false_iff_ne]
    exact fun same => inside (same ▸ member)

theorem strchr_line {line : Bytes} (single : chrLineFeed ∉ line) (rest : Bytes) :
    strchr (line ++ chrLineFeed :: rest) chrLineFeed = some (chrLineFeed :: rest) := by
  rw [strchr, scanTo_append_of_clear, scanTo_cons_of_pos]
  · rfl
  · intro c member
    simp only [beq_eq_false_iff_ne]
    exact fun same => single (same ▸ member)

theorem dropWhile_line (line rest : Bytes) : (line ++ chrLineFeed :: rest).dropWhile isAsciiSpace =
    if line.dropWhile isAsciiSpace = [] then rest.dropWhile isAsciiSpace
    else line.dropWhile isAsciiSpace ++ chrLineFeed :: rest := by
  rw [List.dropWhile_append]
  cases line.dropWhile isAsciiSpace with
  | nil => simp [isAsciiSpace]
  | cons c more => rfl

theorem takeWhile_line (line rest : Bytes) :
    (line ++ chrLineFeed :: rest).takeWhile isLineByte = line.takeWhile isLineByte := by
  rw [List.takeWhile_append]
  split
  · rename_i whole
    rw [List.takeWhile_cons, if_neg (by decide), List.append_nil]
    exact (List.takeWhile_prefix _).eq_of_length whole |>.symm
  · rfl

theorem takeWhile_dropWhile_ne_nil {line : Bytes} (filled : line.dropWhile isAsciiSpace ≠ []) :
    (line.dropWhile isAsciiSpace).takeWhile isLineByte ≠ [] := by
  have first := List.head_dropWhile_not isAsciiSpace filled
  cases here : line.dropWhile isAsciiSpace with
  | nil => exact absurd here filled
  | cons c rest =>
    have solid : isAsciiSpace c = false := by simpa [here] using first
    have inLine : isLineByte c = true := by
      rw [isLineByte]
      by_contra other
      have either : c = chrLineFeed ∨ c = chrReturn := by
        simp only [Bool.and_eq_true, decide_eq_true_eq, not_and_or, not_not] at other
        exact other
      rcases either with rfl | rfl
      · cases solid
      · cases solid
    rw [List.takeWhile_cons, if_pos inLine]
    exact List.cons_ne_nil _ _

/-- The text at `p`, and those of the lines behind it. -/
theorem reachedTexts_skip (p : Bytes) : reachedTexts true (p.splitOn chrLineFeed) =
    (if (p.dropWhile isAsciiSpace).takeWhile isLineByte = [] then []
      else [trimEnd ((p.dropWhile isAsciiSpace).takeWhile isLineByte)]) ++
    match strchr (p.dropWhile isAsciiSpace) chrLineFeed with
    | some (_ :: rest) => reachedTexts false (rest.splitOn chrLineFeed)
    | _ => [] := by
  rcases line_cases p with ⟨single, one, -⟩ | ⟨line, rest, rfl, single, more⟩
  · have none : strchr (p.dropWhile isAsciiSpace) chrLineFeed = none := by
      rw [strchr, scanTo_eq_none]
      intro c member
      simp only [beq_eq_false_iff_ne]
      exact fun same => single (same ▸ (List.dropWhile_suffix _).mem member)
    rw [one, none]
    by_cases blank : p.dropWhile isAsciiSpace = []
    · simp [reachedTexts, blank]
    · rw [if_neg (takeWhile_dropWhile_ne_nil blank)]
      simp [reachedTexts, blank, lineText]
  · rw [more, dropWhile_line]
    by_cases blank : line.dropWhile isAsciiSpace = []
    · rw [if_pos blank, reachedTexts, if_neg (by simp), if_pos blank]
      exact reachedTexts_skip rest
    · have clear : chrLineFeed ∉ line.dropWhile isAsciiSpace :=
        fun member => single ((List.dropWhile_suffix _).mem member)
      rw [if_neg blank, takeWhile_line, if_neg (takeWhile_dropWhile_ne_nil blank), strchr_line clear,
        reachedTexts, if_neg (by simp), if_neg blank]
      rfl
termination_by p.length

theorem uriListLoop_eq (ctx : UriContext Method) : ∀ (fuel : Nat) (p : Bytes) (result : List (Uri Method)),
    p.length < fuel → uriListLoop ctx fuel p result =
      ((reachedTexts false (p.splitOn chrLineFeed)).filterMap (uriNew ctx)).reverse ++ result
  | 0, _, _, never => absurd never (Nat.not_lt_zero _)
  | fuel + 1, p, result, enough => by
    have next : ∀ {q rest : Bytes} {c : UInt8} (result : List (Uri Method)), q.length ≤ p.length →
        strchr q chrLineFeed = some (c :: rest) → uriListLoop ctx fuel rest result =
          ((reachedTexts false (rest.splitOn chrLineFeed)).filterMap (uriNew ctx)).reverse ++ result := by
      intro q rest c result shorter found
      apply uriListLoop_eq ctx fuel rest result
      obtain ⟨front, d, back, split, same, -⟩ := (scanTo_eq_some _).mp found
      cases same
      have size := congrArg List.length split
      simp only [List.length_append, List.length_cons] at size
      omega
    rw [uriListLoop]
    by_cases comment : p.head? = some chrHash
    · rw [uriListRound, if_pos comment]
      dsimp only
      rw [Option.bind_none, Option.map_none, Option.getD_none]
      rcases line_cases p with ⟨-, one, none⟩ | ⟨line, rest, rfl, single, more⟩
      · rw [one, none]
        simp [reachedTexts, comment]
      · have first : line.head? = some chrHash := by
          cases line with
          | nil => cases comment
          | cons c line => exact comment
        have found := strchr_line single rest
        rw [found, more, reachedTexts, if_pos ⟨rfl, first⟩]
        exact next result (Nat.le_refl _) found
    · rw [uriListRound, if_neg comment]
      dsimp only
      have same : reachedTexts false (p.splitOn chrLineFeed) = reachedTexts true (p.splitOn chrLineFeed) := by
        rcases line_cases p with ⟨-, one, -⟩ | ⟨line, rest, rfl, single, more⟩
        · rw [one]
          exact reachedTexts_of_ne comment
        · rw [more]
          apply reachedTexts_of_ne
          intro first
          apply comment
          rw [List.head?_append, first]
          rfl
      rw [same, reachedTexts_skip]
      have shorter : (p.dropWhile isAsciiSpace).length ≤ p.length := (List.dropWhile_suffix _).length_le
      generalize p.dropWhile isAsciiSpace = q at shorter
      rw [List.filterMap_append, List.reverse_append, List.append_assoc]
      have taken : (((if q.takeWhile isLineByte = [] then none else some (trimEnd (q.takeWhile isLineByte))).bind
          (uriNew ctx)).map (· :: result)).getD result = ((if q.takeWhile isLineByte = [] then []
            else [trimEnd (q.takeWhile isLineByte)]).filterMap (uriNew ctx)).reverse ++ result := by
        split
        · rfl
        · rw [Option.bind_some]
          cases here : uriNew ctx (trimEnd (q.takeWhile isLineByte)) with
          | none => simp [here]
          | some uri => simp [here]
      rw [taken]
      cases found : strchr q chrLineFeed with
      | none => rfl
      | some tail =>
        cases tail with
        | nil => rfl
        | cons c rest => exact next _ shorter found

theorem uriListParse_eq (ctx : UriContext Method) (uriList : Bytes) :
    uriListParse ctx uriList = (reachedTexts false (uriList.splitOn chrLineFeed)).filterMap (uriNew ctx) := by
  rw [uriListParse, uriListLoop_eq ctx _ _ _ (Nat.lt_succ_self _), List.append_nil, List.reverse_reverse]

section Listed

/-- White space is dropped at both ends. -/
def trim (line : Bytes) : Bytes := (line.dropWhile isAsciiSpace).rdropWhile isAsciiSpace

/-- The lines that are not blank and are no comments. -/
def listed (lines : List Bytes) : List Bytes :=
  (lines.map trim).filter fun line => line ≠ [] ∧ line.head? ≠ some chrHash

def listedLines (uriList : Bytes) : List Bytes := listed (uriList.splitOn chrLineFeed)

variable {line : Bytes}

theorem rdropWhile_append_of_forall {p : UInt8 → Bool} {front back : Bytes} (all : ∀ c ∈ back, p c = true) :
    (front ++ back).rdropWhile p = front.rdropWhile p := by
  rw [List.rdropWhile, List.rdropWhile, List.reverse_append, List.dropWhile_append]
  have none : back.reverse.dropWhile p = [] := by
    rw [List.dropWhile_eq_nil_iff]
    exact fun c member => all c (List.mem_reverse.mp member)
  rw [none]
  rfl

theorem trimEnd_eq {c : UInt8} (solid : isAsciiSpace c = false) (rest : Bytes) :
    trimEnd (c :: rest) = (c :: rest).rdropWhile isAsciiSpace := by
  rw [trimEnd, List.rdropWhile, List.rdropWhile, List.reverse_cons, List.dropWhile_append]
  split
  · rename_i none
    rw [List.isEmpty_iff.mp none]
    simp [solid]
  · simp

/-- A line that is not blank has a first byte that stays. -/
theorem exists_trim (filled : line.dropWhile isAsciiSpace ≠ []) : ∃ c rest, isAsciiSpace c = false ∧
    line.dropWhile isAsciiSpace = c :: rest ∧ trim line = c :: rest.rdropWhile isAsciiSpace := by
  have first := List.head_dropWhile_not isAsciiSpace filled
  cases here : line.dropWhile isAsciiSpace with
  | nil => exact absurd here filled
  | cons c rest =>
    have solid : isAsciiSpace c = false := by simpa [here] using first
    exact ⟨c, rest, solid, rfl, by rw [trim, here, ← trimEnd_eq solid]; rfl⟩

theorem trim_eq_nil : trim line = [] ↔ line.dropWhile isAsciiSpace = [] := by
  constructor
  · intro blank
    by_contra filled
    obtain ⟨c, rest, -, -, same⟩ := exists_trim filled
    rw [same] at blank
    cases blank
  · intro blank
    rw [trim, blank]
    rfl

theorem lineText_eq_trim (single : chrLineFeed ∉ line) (whole : chrReturn ∉ trim line)
    (filled : line.dropWhile isAsciiSpace ≠ []) : lineText line = trim line := by
  obtain ⟨c, rest, solid, here, trimmed⟩ := exists_trim filled
  have split : trim line ++ (line.dropWhile isAsciiSpace).rtakeWhile isAsciiSpace = line.dropWhile isAsciiSpace :=
    List.rdropWhile_append_rtakeWhile
  have inLine : ∀ b ∈ trim line, isLineByte b = true := by
    intro b member
    have inside : b ∈ line := (List.dropWhile_suffix _).mem ((List.rdropWhile_prefix _ _).mem member)
    rw [isLineByte, Bool.and_eq_true, decide_eq_true_eq, decide_eq_true_eq]
    exact ⟨fun same => single (same ▸ inside), fun same => whole (same ▸ member)⟩
  have spaces : ∀ b ∈ ((line.dropWhile isAsciiSpace).rtakeWhile isAsciiSpace).takeWhile isLineByte,
      isAsciiSpace b = true := fun b member => List.mem_rtakeWhile_imp ((List.takeWhile_prefix _).mem member)
  rw [lineText, ← split, List.takeWhile_append_of_pos inLine, trimmed, List.cons_append, trimEnd_eq solid,
    ← List.cons_append, ← trimmed, rdropWhile_append_of_forall spaces]
  exact List.rdropWhile_idempotent _ _

theorem chrReturn_not_mem_lineText (line : Bytes) : chrReturn ∉ lineText line := by
  intro member
  have inside : ∀ text : Bytes, ∀ c ∈ trimEnd text, c ∈ text := by
    intro text c member
    cases text with
    | nil => exact member
    | cons first rest =>
      rcases List.mem_cons.mp member with same | later
      · rw [same]
        exact List.mem_cons_self
      · exact List.mem_cons_of_mem _ ((List.rdropWhile_prefix _ _).mem later)
  have taken := List.mem_takeWhile_imp (inside _ _ member)
  cases taken

theorem exists_lineText (filled : line.dropWhile isAsciiSpace ≠ []) :
    lineText line ≠ [] ∧ (lineText line).head? = (trim line).head? := by
  obtain ⟨c, rest, -, here, trimmed⟩ := exists_trim filled
  have some := takeWhile_dropWhile_ne_nil filled
  rw [here] at some
  rw [lineText, here, trimmed]
  rw [List.takeWhile_cons] at some ⊢
  split at some
  · rename_i inLine
    rw [if_pos inLine]
    exact ⟨List.cons_ne_nil _ _, rfl⟩
  · exact absurd rfl some

end Listed

variable {text : Bytes}

section Orderly

variable {line : Bytes} {lines : List Bytes} {skipping : Bool}

/-- Comments begin with their line, and none stands directly behind a blank line. Only in what the
method `pipe` is asked for, which is never given, is there a carriage return within a line. -/
structure Orderly (uriList : Bytes) : Prop where
  comments : ∀ line ∈ uriList.splitOn chrLineFeed, (trim line).head? = some chrHash → line.head? = some chrHash
  behind : (uriList.splitOn chrLineFeed).IsChain fun blank line => trim blank = [] → line.head? ≠ some chrHash
  returns : ∀ line ∈ uriList.splitOn chrLineFeed, chrReturn ∈ trim line → (trim line).head? ≠ some chrHash →
    (getMethodString (trim line)).1 = ascii "pipe"

/-- No comment is reached, line by line. -/
def Straight : Bool → List Bytes → Prop
  | _, [] => True
  | skipping, line :: rest =>
    ((trim line).head? = some chrHash → line.head? = some chrHash ∧ skipping = false) ∧
      Straight (trim line = []) rest

theorem listed_cons_of_neg (out : trim line = [] ∨ (trim line).head? = some chrHash) :
    listed (line :: rest) = listed rest := by
  rw [listed, List.map_cons, List.filter_cons_of_neg]
  · rfl
  · simp only [decide_eq_true_eq]
    tauto

theorem listed_cons_of_pos (filled : trim line ≠ []) (other : (trim line).head? ≠ some chrHash) :
    listed (line :: rest) = trim line :: listed rest := by
  rw [listed, List.map_cons, List.filter_cons_of_pos]
  · rfl
  · exact decide_eq_true ⟨filled, other⟩

theorem trim_comment (comment : line.head? = some chrHash) : (trim line).head? = some chrHash := by
  cases line with
  | nil => cases comment
  | cons c rest =>
    cases comment
    have whole : (chrHash :: rest).dropWhile isAsciiSpace = chrHash :: rest := rfl
    rw [trim, whole, ← trimEnd_eq rfl]
    rfl

theorem straight_iff : ∀ (lines : List Bytes) (skipping : Bool), Straight skipping lines ↔
    (∀ line ∈ lines, (trim line).head? = some chrHash → line.head? = some chrHash) ∧
      (skipping = true → ∀ line ∈ lines.head?, line.head? ≠ some chrHash) ∧
      lines.IsChain fun blank line => trim blank = [] → line.head? ≠ some chrHash
  | [], _ => by simp [Straight]
  | line :: rest, skipping => by
    rw [Straight, straight_iff rest, List.isChain_cons, List.forall_mem_cons, decide_eq_true_eq, List.head?_cons]
    have first : ((trim line).head? = some chrHash → line.head? = some chrHash ∧ skipping = false) ↔
        ((trim line).head? = some chrHash → line.head? = some chrHash) ∧
          (skipping = true → line.head? ≠ some chrHash) := by
      constructor
      · intro straight
        refine ⟨fun comment => (straight comment).1, fun blank comment => ?_⟩
        rw [(straight (trim_comment comment)).2] at blank
        cases blank
      · rintro ⟨comments, behind⟩ comment
        exact ⟨comments comment, Bool.eq_false_iff.mpr fun blank => behind blank (comments comment)⟩
    rw [first]
    constructor
    · rintro ⟨⟨comment, front⟩, comments, behind, chain⟩
      exact ⟨⟨comment, comments⟩, fun blank other same => by cases same; exact front blank,
        fun other member blank => behind blank other member, chain⟩
    · rintro ⟨⟨comment, comments⟩, front, behind, chain⟩
      exact ⟨⟨comment, fun blank => front blank line rfl⟩, comments, fun blank other member => behind other member blank, chain⟩

theorem uriNew_pipe (ctx : UriContext Method) (pipe : (getMethodString text).1 = ascii "pipe") :
    uriNew ctx text = none := by
  rw [uriNew, uriNewPrivate]
  split
  · rfl
  · simp [pipe]

theorem getMethodString_cases (text : Bytes) : getMethodString text = (ascii "file", text) ∨
    ∃ scheme rest, text = scheme ++ chrColon :: rest ∧ (∀ c ∈ scheme, isMethodChar c = true) ∧
      getMethodString text = (strdown scheme, rest) := by
  rw [getMethodString]
  split
  · rename_i c rest behind
    by_cases colon : c = chrColon
    · rw [if_pos colon]
      refine Or.inr ⟨text.takeWhile isMethodChar, rest, ?_, fun c => List.mem_takeWhile_imp, rfl⟩
      rw [← colon, ← behind, List.takeWhile_append_dropWhile]
    · rw [if_neg colon]
      exact Or.inl rfl
  · exact Or.inl rfl

theorem chrReturn_mem_getMethodString :
    chrReturn ∈ (getMethodString text).2 ↔ chrReturn ∈ text := by
  rcases getMethodString_cases text with same | ⟨scheme, rest, split, method, same⟩
  · rw [same]
  · have clear : chrReturn ∉ scheme := by
      intro member
      have never := method _ member
      cases never
    rw [same, split]
    simp [clear, chrReturn]

theorem trimEnd_append {front : Bytes} {c : UInt8} (solid : isAsciiSpace c = false) (back : Bytes) :
    ∃ rest, trimEnd (front ++ c :: back) = front ++ c :: rest := by
  have kept : ∀ front : Bytes, (front ++ c :: back).rdropWhile isAsciiSpace = front ++ (c :: back).rdropWhile isAsciiSpace := by
    intro front
    have some : (c :: back).reverse.dropWhile isAsciiSpace ≠ [] := by
      intro none
      have never := List.dropWhile_eq_nil_iff.mp none c (List.mem_reverse.mpr List.mem_cons_self)
      rw [solid] at never
      cases never
    rw [List.rdropWhile, List.rdropWhile, List.reverse_append, List.dropWhile_append,
      if_neg (mt List.isEmpty_iff.mp some), List.reverse_append, List.reverse_reverse]
  cases front with
  | nil => exact ⟨_, rfl⟩
  | cons first front => exact ⟨back.rdropWhile isAsciiSpace, by rw [List.cons_append, trimEnd, kept, ← trimEnd_eq solid]; rfl⟩

/-- What is taken is the line, but where it is none that a method is given for. -/
theorem uriNew_lineText (ctx : UriContext Method) (single : chrLineFeed ∉ line)
    (filled : line.dropWhile isAsciiSpace ≠ [])
    (returns : chrReturn ∈ trim line → (getMethodString (trim line)).1 = ascii "pipe") :
    uriNew ctx (lineText line) = uriNew ctx (trim line) := by
  by_cases inside : chrReturn ∈ trim line
  · have pipe := returns inside
    rw [uriNew_pipe ctx pipe]
    apply uriNew_pipe
    rcases getMethodString_cases (trim line) with same | ⟨scheme, rest, split, method, same⟩
    · rw [same] at pipe
      cases pipe
    · rw [same] at pipe
      have whole : scheme ++ chrColon :: (rest ++ (line.dropWhile isAsciiSpace).rtakeWhile isAsciiSpace) =
          line.dropWhile isAsciiSpace := by
        rw [← List.cons_append, ← List.append_assoc, ← split]
        exact List.rdropWhile_append_rtakeWhile
      have inLine : ∀ c ∈ scheme, isLineByte c = true := by
        intro c member
        have named := method c member
        rw [isLineByte, Bool.and_eq_true, decide_eq_true_eq, decide_eq_true_eq]
        constructor
        · rintro rfl
          cases named
        · rintro rfl
          cases named
      rw [lineText, ← whole, List.takeWhile_append_of_pos inLine, List.takeWhile_cons, if_pos (by decide)]
      obtain ⟨behind, cut⟩ := @trimEnd_append scheme chrColon (by decide)
        ((rest ++ (line.dropWhile isAsciiSpace).rtakeWhile isAsciiSpace).takeWhile isLineByte)
      rw [cut, getMethodString_strdown method]
      exact pipe
  · rw [lineText_eq_trim single inside filled]

theorem filterMap_reachedTexts (ctx : UriContext Method) : ∀ (lines : List Bytes) (skipping : Bool),
    (∀ line ∈ lines, chrLineFeed ∉ line) → Straight skipping lines →
    (∀ line ∈ lines, chrReturn ∈ trim line → (trim line).head? ≠ some chrHash →
      (getMethodString (trim line)).1 = ascii "pipe") →
    (reachedTexts skipping lines).filterMap (uriNew ctx) = (listed lines).filterMap (uriNew ctx)
  | [], _, _, _, _ => rfl
  | line :: rest, skipping, single, straight, returns => by
    rw [List.forall_mem_cons] at single returns
    obtain ⟨first, later⟩ := straight
    have ih := filterMap_reachedTexts ctx rest (trim line = []) single.2 later returns.2
    rw [reachedTexts]
    by_cases comment : (trim line).head? = some chrHash
    · obtain ⟨raw, fresh⟩ := first comment
      rw [if_pos ⟨fresh, raw⟩, listed_cons_of_neg (Or.inr comment), ← ih]
      have filled : trim line ≠ [] := by
        intro empty
        rw [empty] at comment
        cases comment
      rw [decide_eq_false filled]
    · have other : ¬ (skipping = false ∧ line.head? = some chrHash) := fun both => comment (trim_comment both.2)
      rw [if_neg other]
      by_cases blank : line.dropWhile isAsciiSpace = []
      · have empty := trim_eq_nil.mpr blank
        rw [if_pos blank, listed_cons_of_neg (Or.inl empty), ← ih]
        simp [empty]
      · have filled : trim line ≠ [] := mt trim_eq_nil.mp blank
        rw [if_neg blank, listed_cons_of_pos filled comment, List.filterMap_cons, List.filterMap_cons,
          uriNew_lineText ctx single.1 blank fun inside => returns.1 inside comment, ← ih]
        simp [filled]

/-- All methods are registered. -/
def anyMethod : UriContext Unit := ⟨fun _ => some (), fun _ => none, fun _ => .control⟩

theorem uriNew_anyMethod (filled : text ≠ []) (other : (getMethodString text).1 ≠ ascii "pipe") :
    (uriNew anyMethod text).isSome := by
  rw [uriNew, uriNewPrivate, if_neg filled]
  simp [other, applyTransform, anyMethod]

/-- There is one method, into which this text and no other is transformed. -/
def onlyText (text : Bytes) : UriContext Unit :=
  ⟨fun method => if method = [103] then some () else none,
    fun method => some fun scanner => some (if (method, scanner) = getMethodString text then [103, chrColon] else [98, chrColon]),
    fun _ => .control⟩

theorem uriNew_onlyText_self (filled : text ≠ []) (other : (getMethodString text).1 ≠ ascii "pipe") :
    (uriNew (onlyText text) text).isSome := by
  have known : getMethodString [103, chrColon] = ([103], []) := by decide
  rw [uriNew, uriNewPrivate, if_neg filled]
  simp [other, applyTransform, onlyText, known]

theorem getMethodString_of_onlyText {text other : Bytes} (some : (uriNew (onlyText text) other).isSome) :
    getMethodString other = getMethodString text := by
  by_contra different
  have unknown : getMethodString [98, chrColon] = ([98], []) := by decide
  rw [uriNew, uriNewPrivate] at some
  split at some
  · cases some
  · simp [applyTransform, onlyText, unknown, different] at some

theorem mem_reachedTexts : ∀ (lines : List Bytes) (skipping : Bool),
    text ∈ reachedTexts skipping lines → ∃ line ∈ lines, text = lineText line
  | [], _, never => by cases never
  | line :: rest, skipping, member => by
    have later : (∃ line ∈ rest, text = lineText line) → ∃ other ∈ line :: rest, text = lineText other :=
      fun ⟨other, inside, same⟩ => ⟨other, List.mem_cons_of_mem _ inside, same⟩
    rw [reachedTexts] at member
    split at member
    · exact later (mem_reachedTexts rest _ member)
    · split at member
      · exact later (mem_reachedTexts rest _ member)
      · rcases List.mem_cons.mp member with same | inside
        · exact ⟨line, List.mem_cons_self, same⟩
        · exact later (mem_reachedTexts rest _ inside)

theorem not_mem_splitOn (p : Bytes) : ∀ line ∈ p.splitOn chrLineFeed, chrLineFeed ∉ line := by
  intro line member
  rcases line_cases p with ⟨single, one, -⟩ | ⟨first, rest, rfl, single, more⟩
  · rw [one] at member
    rw [List.mem_singleton.mp member]
    exact single
  · rw [more] at member
    rcases List.mem_cons.mp member with same | later
    · rw [same]
      exact single
    · exact not_mem_splitOn rest line later
termination_by p.length

theorem uriNew_comment (filled : line.dropWhile isAsciiSpace ≠ []) (comment : (trim line).head? = some chrHash) :
    (uriNew anyMethod (lineText line)).isSome := by
  obtain ⟨some, first⟩ := exists_lineText filled
  apply uriNew_anyMethod some
  rw [comment] at first
  cases here : lineText line with
  | nil => exact absurd here some
  | cons c rest =>
    rw [here] at first
    cases first
    have file : ascii "file" ≠ ascii "pipe" := by decide
    exact file

/-- A comment that is reached gives one URI more. -/
theorem length_reachedTexts : ∀ (lines : List Bytes) (skipping : Bool), (∀ line ∈ lines, chrLineFeed ∉ line) →
    (∀ line ∈ lines, chrReturn ∈ trim line → (trim line).head? ≠ some chrHash →
      (getMethodString (trim line)).1 = ascii "pipe") →
    ((listed lines).filterMap (uriNew anyMethod)).length ≤
      ((reachedTexts skipping lines).filterMap (uriNew anyMethod)).length ∧
    (¬ Straight skipping lines → ((listed lines).filterMap (uriNew anyMethod)).length <
      ((reachedTexts skipping lines).filterMap (uriNew anyMethod)).length)
  | [], _, _, _ => ⟨Nat.le_refl _, fun never => absurd trivial never⟩
  | line :: rest, skipping, single, returns => by
    rw [List.forall_mem_cons] at single returns
    obtain ⟨shorter, strict⟩ := length_reachedTexts rest (trim line = []) single.2 returns.2
    rw [reachedTexts, Straight]
    by_cases comment : (trim line).head? = some chrHash
    · have filled : trim line ≠ [] := by
        intro empty
        rw [empty] at comment
        cases comment
      rw [decide_eq_false filled] at shorter strict ⊢
      rw [listed_cons_of_neg (Or.inr comment)]
      by_cases both : skipping = false ∧ line.head? = some chrHash
      · rw [if_pos both]
        exact ⟨shorter, fun crooked => strict fun later => crooked ⟨fun _ => ⟨both.2, both.1⟩, later⟩⟩
      · have solid := mt trim_eq_nil.mpr filled
        obtain ⟨uri, given⟩ := Option.isSome_iff_exists.mp (uriNew_comment solid comment)
        rw [if_neg both, if_neg solid, List.filterMap_cons_some given, List.length_cons]
        omega
    · have other : ¬ (skipping = false ∧ line.head? = some chrHash) := fun both => comment (trim_comment both.2)
      have crooked : ¬ (((trim line).head? = some chrHash → line.head? = some chrHash ∧ skipping = false) ∧
          Straight (trim line = []) rest) → ¬ Straight (trim line = []) rest :=
        fun crooked later => crooked ⟨fun never => absurd never comment, later⟩
      rw [if_neg other]
      by_cases blank : line.dropWhile isAsciiSpace = []
      · have empty := trim_eq_nil.mpr blank
        rw [decide_eq_true empty] at shorter strict crooked ⊢
        rw [if_pos blank, listed_cons_of_neg (Or.inl empty)]
        exact ⟨shorter, fun bent => strict (crooked bent)⟩
      · have filled : trim line ≠ [] := mt trim_eq_nil.mp blank
        rw [decide_eq_false filled] at shorter strict crooked ⊢
        rw [if_neg blank, listed_cons_of_pos filled comment, List.filterMap_cons, List.filterMap_cons,
          uriNew_lineText anyMethod single.1 blank fun inside => returns.1 inside comment]
        cases uriNew anyMethod (trim line) with
        | none => exact ⟨shorter, fun bent => strict (crooked bent)⟩
        | some uri => exact ⟨Nat.succ_le_succ shorter, fun bent => Nat.succ_lt_succ (strict (crooked bent))⟩

/-- Whatever methods there are, the URIs are those of the lines of an orderly list, and of no other. -/
theorem uriListParse_iff (uriList : Bytes) : (∀ (Method : Type) (ctx : UriContext Method),
    uriListParse ctx uriList = (listedLines uriList).filterMap (uriNew ctx)) ↔ Orderly uriList := by
  have single := not_mem_splitOn uriList
  constructor
  · intro parses
    have returns : ∀ line ∈ uriList.splitOn chrLineFeed, chrReturn ∈ trim line → (trim line).head? ≠ some chrHash →
        (getMethodString (trim line)).1 = ascii "pipe" := by
      intro line member inside other
      by_contra named
      have filled := List.ne_nil_of_mem inside
      have listed : trim line ∈ listedLines uriList := by
        rw [listedLines, listed, List.mem_filter]
        exact ⟨List.mem_map_of_mem member, by simp [filled, other]⟩
      obtain ⟨uri, given⟩ := Option.isSome_iff_exists.mp (uriNew_onlyText_self filled named)
      have found := List.mem_filterMap.mpr ⟨_, listed, given⟩
      rw [← parses, uriListParse_eq] at found
      obtain ⟨text, reached, taken⟩ := List.mem_filterMap.mp found
      have same := @getMethodString_of_onlyText (trim line) text (by rw [taken]; rfl)
      obtain ⟨line', -, rfl⟩ := mem_reachedTexts _ _ reached
      apply chrReturn_not_mem_lineText line'
      rw [← chrReturn_mem_getMethodString, same, chrReturn_mem_getMethodString]
      exact inside
    have straight : Straight false (uriList.splitOn chrLineFeed) := by
      by_contra crooked
      have strict := (length_reachedTexts _ false single returns).2 crooked
      have same := congrArg List.length (parses Unit anyMethod)
      rw [uriListParse_eq, listedLines] at same
      omega
    obtain ⟨comments, -, behind⟩ := (straight_iff _ _).mp straight
    exact ⟨comments, behind, returns⟩
  · rintro ⟨comments, behind, returns⟩ Method ctx
    have straight := (straight_iff (uriList.splitOn chrLineFeed) false).mpr ⟨comments, fun never => (by cases never), behind⟩
    rw [uriListParse_eq, listedLines]
    exact filterMap_reachedTexts ctx _ false single straight returns

/-- A comment behind a blank line. -/
theorem uriListParse_comment : ¬ ∀ (ctx : UriContext Unit) (uriList : Bytes),
    uriListParse ctx uriList = (listedLines uriList).filterMap (uriNew ctx) := by
  intro parses
  have taken : (uriListParse anyMethod (ascii "\n#x")).length = 1 := by decide
  have listed : listedLines (ascii "\n#x") = [] := by decide
  rw [parses, listed] at taken
  cases taken

end Orderly

end GnomeVfs
