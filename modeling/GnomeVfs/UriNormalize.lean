import GnomeVfs.CanonicalizeFixed
import GnomeVfs.EscapeRoundtrip
import GnomeVfs.Uri

/- The texts that `set_uri_element` leaves as they are. -/
namespace GnomeVfs

open scoped List

variable {Method : Type}

theorem removeOptionalEscapes_cases (beyond : UInt8 → CharacterKind) (s : Bytes) :
    (removeOptionalEscapes beyond s).1 = s ∨ (removeOptionalEscapes beyond s).1.length < s.length := by
  fun_induction removeOptionalEscapes beyond s with
  | case1 => exact Or.inl rfl
  | case2 first second tail d decoded next removed ih =>
    right
    rcases ih with same | shorter <;> simp_all [next]
    omega
  | case3 first second tail d decoded next kept ih =>
    rcases ih with same | shorter
    · exact Or.inl (by simp [next, same])
    · exact Or.inr (by simpa [next] using shorter)
  | case4 => exact Or.inl rfl
  | case5 => exact Or.inl rfl
  | case6 => exact Or.inl rfl
  | case7 c rest plain legal next ih =>
    rcases ih with same | shorter
    · exact Or.inl (by simp [next, same])
    · exact Or.inr (by simpa [next] using shorter)

theorem removeOptionalEscapes_mem (beyond : UInt8 → CharacterKind) (s : Bytes) :
    ∀ d ∈ (removeOptionalEscapes beyond s).1, d ∈ s ∨ uriCharacterKind beyond d = .unreserved := by
  fun_induction removeOptionalEscapes beyond s with
  | case1 => simp
  | case2 first second tail d decoded next removed ih =>
    intro c member
    rcases List.mem_cons.mp member with rfl | inside
    · exact Or.inr removed
    · rcases ih c inside with there | fresh
      · exact Or.inl (by simp [there])
      · exact Or.inr fresh
  | case3 first second tail d decoded next kept ih =>
    intro c member
    simp only [List.mem_cons] at member ⊢
    rcases member with rfl | rfl | rfl | inside
    · simp
    · simp
    · simp
    · rcases ih c inside with there | fresh <;> simp_all
  | case4 => exact fun c member => Or.inl member
  | case5 => exact fun c member => Or.inl member
  | case6 => exact fun c member => Or.inl member
  | case7 c rest plain legal next ih =>
    intro d member
    simp only [List.mem_cons] at member ⊢
    rcases member with rfl | inside
    · simp
    · rcases ih d inside with there | fresh <;> simp_all

/-- The bytes that the normaliser neither writes nor unescapes. -/
def neverWritten : Bytes := 0 :: chrHash :: escapedCharacters

theorem uriCharacterKind_neverWritten (beyond : UInt8 → CharacterKind) :
    ∀ d ∈ neverWritten, uriCharacterKind beyond d ≠ .unreserved := by
  have table : ∀ d ∈ neverWritten, d < 128 ∧ uriCharacterKindTable.getD d.toNat .control ≠ .unreserved := by
    decide
  intro d member
  rw [uriCharacterKind, if_pos (table d member).1]
  exact (table d member).2

theorem removeOptionalEscapes_not_mem (beyond : UInt8 → CharacterKind) {s : Bytes} {d : UInt8}
    (special : d ∈ neverWritten) (absent : d ∉ s) : d ∉ (removeOptionalEscapes beyond s).1 := by
  intro member
  rcases removeOptionalEscapes_mem beyond s d member with there | fresh
  · exact absent there
  · exact uriCharacterKind_neverWritten beyond d special fresh

theorem escapeByte_neverWritten (c : UInt8) : ∀ d ∈ neverWritten, d ∉ escapeByte c := by
  have apart : ∀ d ∈ neverWritten, isEscapedByte d = false := by decide
  intro d special written
  have escaped := escapeByte_escaped c d written
  rw [apart d special] at escaped
  cases escaped

theorem escapeSet_not_mem {s matchSet : Bytes} {d : UInt8} (special : d ∈ neverWritten)
    (absent : d ∉ s ∨ d ∈ matchSet) : d ∉ escapeSet s matchSet := by
  intro member
  obtain ⟨c, inside, written⟩ := List.mem_flatMap.mp member
  split at written
  · exact escapeByte_neverWritten c d special written
  · rename_i kept
    simp only [List.mem_singleton] at written
    subst written
    rcases absent with outside | escaped
    · exact outside inside
    · exact kept escaped

theorem escapeSet_of_clear {s matchSet : Bytes} (clear : ∀ c ∈ matchSet, c ∉ s) :
    escapeSet s matchSet = s := by
  induction s with
  | nil => rfl
  | cons c rest ih =>
    have kept : c ∉ matchSet := fun escaped => clear c escaped (by simp)
    have tail := ih fun d escaped member => clear d escaped (by simp [member])
    simp only [escapeSet, List.flatMap_cons, if_neg kept] at tail ⊢
    rw [tail, List.singleton_append]

/-- The text an element of this method can have: where the reserved characters are escaped,
none of them is left. -/
def EscapedText (methodString text : Bytes) : Prop :=
  methodString ∉ unescapedMethods → ∀ c ∈ escapedCharacters, c ∉ text

section Normalize

variable (ctx : UriContext Method) (methodString : Bytes)

theorem normalizeText_not_mem {text : Bytes} {d : UInt8} (special : d ∈ neverWritten)
    (absent : d ∉ text ∨ methodString ∉ unescapedMethods ∧ d ∈ escapedCharacters) :
    d ∉ normalizeText ctx methodString text := by
  intro member
  have inside := (canonicalizePathname_sublist _).subset member
  refine removeOptionalEscapes_not_mem ctx.beyond special ?_ inside
  split
  · rename_i unescaped
    exact absent.resolve_right fun escaped => escaped.1 unescaped
  · exact escapeSet_not_mem special (absent.imp_right And.right)

theorem normalizeText_escaped (text : Bytes) :
    EscapedText methodString (normalizeText ctx methodString text) := by
  intro escaped c member
  exact normalizeText_not_mem ctx methodString (List.mem_cons_of_mem _ (List.mem_cons_of_mem _ member))
    (Or.inr ⟨escaped, member⟩)

theorem normalizeText_of_escaped {text : Bytes} (escaped : EscapedText methodString text) :
    normalizeText ctx methodString text =
      canonicalizePathname (removeOptionalEscapes ctx.beyond text).1 := by
  rw [normalizeText]
  split
  · rfl
  · rename_i applies
    rw [escapeSet_of_clear (escaped applies)]

theorem normalizeText_length {text : Bytes} (escaped : EscapedText methodString text) :
    (normalizeText ctx methodString text).length ≤ text.length := by
  rw [normalizeText_of_escaped ctx methodString escaped]
  have canonical := (canonicalizePathname_sublist (removeOptionalEscapes ctx.beyond text).1).length_le
  rcases removeOptionalEscapes_cases ctx.beyond text with same | shorter
  · rwa [same] at canonical ⊢
  · omega

theorem normalizeText_eq_self {text : Bytes} (escaped : EscapedText methodString text)
    (proper : (0 : UInt8) ∉ text) :
    normalizeText ctx methodString text = text ↔
      (removeOptionalEscapes ctx.beyond text).1 = text ∧ Settled text := by
  rw [normalizeText_of_escaped ctx methodString escaped]
  constructor
  · intro fixed
    have kept : (removeOptionalEscapes ctx.beyond text).1 = text := by
      rcases removeOptionalEscapes_cases ctx.beyond text with same | shorter
      · exact same
      · have := (canonicalizePathname_sublist (removeOptionalEscapes ctx.beyond text).1).length_le
        rw [fixed] at this
        omega
    rw [kept] at fixed
    exact ⟨kept, (canonicalizePathname_eq_self proper).mp fixed⟩
  · rintro ⟨kept, settled⟩
    rw [kept, canonicalizePathname_eq_self proper]
    exact settled

theorem normalizeText_root : normalizeText ctx methodString [chrSlash] = [chrSlash] := by
  rw [normalizeText_of_escaped ctx methodString (fun _ => by decide)]
  have kept : (removeOptionalEscapes ctx.beyond [chrSlash]).1 = [chrSlash] := by
    rcases removeOptionalEscapes_cases ctx.beyond [chrSlash] with same | shorter
    · exact same
    · have : chrSlash ∈ (removeOptionalEscapes ctx.beyond [chrSlash]).1 := by
        simp [removeOptionalEscapes, uriCharacterKind, uriCharacterKindTable]
      have := List.length_pos_of_mem this
      simp at shorter
      simp [shorter] at this
  rw [kept]
  decide

theorem normalizeText_nil : normalizeText ctx methodString [] = [] := by
  rw [normalizeText_of_escaped ctx methodString (fun _ => by simp)]
  rfl

end Normalize

end GnomeVfs
