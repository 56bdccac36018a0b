import GnomeVfs.EscapeRoundtrip

/- `gnome_vfs_unescape_string_for_display`, which decodes what it can. -/
namespace GnomeVfs

/-- One round of the loop at `in`, which does not point at the terminator: what is put out, and where `in`
is afterwards. A digit that is none is not passed, so `in` goes no further than the terminator. -/
def displayStep (start : Bytes) : Bytes × Bytes :=
  let c := byteAt start 0
  if c = chrPercent then
    match hexToInt (byteAt start 1) with
    | none => (start.take 1, start.drop 1)
    | some first =>
      match hexToInt (byteAt start 2) with
      | none => (start.take 2, start.drop 2)
      | some second =>
        let c := first <<< 4 ||| second
        if c = 0 then (start.take 3, start.drop 3) else ([c], start.drop 3)
  else ([c], start.drop 1)

/-- The loop of `gnome_vfs_unescape_string_for_display`; `none` while it is still running. -/
def displayLoop : Nat → Bytes → Option Bytes
  | 0, _ => none
  | fuel + 1, start =>
    if start = [] then some []
    else (displayLoop fuel (displayStep start).2).map ((displayStep start).1 ++ ·)

/-- `gnome_vfs_unescape_string_for_display`. Each round passes a byte. -/
def unescapeStringForDisplay (escaped : Bytes) : Option Bytes := displayLoop (escaped.length + 1) escaped

/-- The decoding from left to right: a `%` with two digits of a byte other than 0 is replaced by the byte,
and every other byte is copied. -/
def displayDecoding : Bytes → Bytes
  | [] => []
  | [c] => [c]
  | [c, d] => [c, d]
  | c :: first :: second :: tail =>
    match (if c = chrPercent then unescapeCharacter first second else none) with
    | some d => if d = 0 then c :: displayDecoding (first :: second :: tail) else d :: displayDecoding tail
    | none => c :: displayDecoding (first :: second :: tail)

theorem displayDecoding_copy {c : UInt8} (plain : c ≠ chrPercent) (rest : Bytes) :
    displayDecoding (c :: rest) = c :: displayDecoding rest := by
  cases rest with
  | nil => rfl
  | cons first rest =>
    cases rest with
    | nil => rfl
    | cons second tail =>
      rw [displayDecoding, if_neg plain]

theorem displayDecoding_byte {first second d : UInt8} (decoded : unescapeCharacter first second = some d) (nonzero : d ≠ 0)
    (tail : Bytes) : displayDecoding (chrPercent :: first :: second :: tail) = d :: displayDecoding tail := by
  rw [displayDecoding, if_pos rfl, decoded]
  exact if_neg nonzero

/-- A `%` that begins no escape is copied. -/
theorem displayDecoding_percent {rest : Bytes}
    (none : ∀ first second tail, rest = first :: second :: tail → ∀ d, unescapeCharacter first second = some d → d = 0) :
    displayDecoding (chrPercent :: rest) = chrPercent :: displayDecoding rest := by
  cases rest with
  | nil => rfl
  | cons first rest =>
    cases rest with
    | nil => rfl
    | cons second tail =>
      rw [displayDecoding, if_pos rfl]
      cases decoded : unescapeCharacter first second with
      | none => rfl
      | some d => exact if_pos (none first second tail rfl d decoded)

theorem hexToInt_percent {c : UInt8} {n : UInt8} (digit : hexToInt c = some n) : c ≠ chrPercent := by
  rintro rfl
  cases digit

/-- A round does what the decoding does, and what it has copied is not looked at again. -/
theorem displayStep_decoding (start : Bytes) (more : start ≠ []) :
    displayDecoding start = (displayStep start).1 ++ displayDecoding (displayStep start).2 := by
  obtain ⟨c, rest, rfl⟩ := List.exists_cons_of_ne_nil more
  unfold displayStep
  dsimp only
  rw [show byteAt (c :: rest) 0 = c from rfl]
  by_cases percent : c = chrPercent
  · rw [percent, if_pos rfl]
    cases rest with
    | nil => rfl
    | cons first rest =>
      rw [show byteAt (chrPercent :: first :: rest) 1 = first from rfl]
      cases one : hexToInt first with
      | none =>
        apply displayDecoding_percent
        intro a b tail same d decoded
        cases same
        rw [unescapeCharacter, one] at decoded
        cases decoded
      | some high =>
        dsimp only
        have plain := hexToInt_percent one
        cases rest with
        | nil => rfl
        | cons second tail =>
          rw [show byteAt (chrPercent :: first :: second :: tail) 2 = second from rfl]
          cases two : hexToInt second with
          | none =>
            rw [displayDecoding_percent, displayDecoding_copy plain]
            · rfl
            · intro a b tail same d decoded
              cases same
              rw [unescapeCharacter, one, two] at decoded
              cases decoded
          | some low =>
            have decoded : unescapeCharacter first second = some (high <<< 4 ||| low) := by
              rw [unescapeCharacter, one, two]
            dsimp only
            split
            · rename_i zero
              rw [displayDecoding_percent, displayDecoding_copy plain, displayDecoding_copy (hexToInt_percent two)]
              · rfl
              · intro a b tail same d other
                cases same
                rw [decoded] at other
                exact (Option.some.inj other).symm.trans zero
            · rename_i nonzero
              exact displayDecoding_byte decoded nonzero tail
  · rw [if_neg percent]
    exact displayDecoding_copy percent rest

theorem displayStep_shorter (start : Bytes) (more : start ≠ []) : (displayStep start).2.length < start.length := by
  have positive := List.length_pos_iff.mpr more
  unfold displayStep
  dsimp only
  split
  · split
    · rw [List.length_drop]
      omega
    · split
      · rw [List.length_drop]
        omega
      · split
        · rw [List.length_drop]
          omega
        · rw [List.length_drop]
          omega
  · rw [List.length_drop]
    omega

theorem displayLoop_eq (fuel : Nat) : ∀ start : Bytes, start.length < fuel → displayLoop fuel start = some (displayDecoding start) := by
  induction fuel with
  | zero =>
    intro start enough
    omega
  | succ fuel ih =>
    intro start enough
    rw [displayLoop]
    by_cases ended : start = []
    · rw [if_pos ended, ended]
      rfl
    · have shorter := displayStep_shorter start ended
      rw [if_neg ended, ih _ (by omega), displayStep_decoding start ended]
      rfl

theorem displayDecoding_length (s : Bytes) : (displayDecoding s).length ≤ s.length := by
  fun_induction displayDecoding s with
  | case1 => exact Nat.le_refl _
  | case2 => exact Nat.le_refl _
  | case3 => exact Nat.le_refl _
  | case4 =>
    rename_i ih
    simp only [List.length_cons] at ih ⊢
    omega
  | case5 =>
    rename_i ih
    simp only [List.length_cons] at ih ⊢
    omega
  | case6 =>
    rename_i ih
    simp only [List.length_cons] at ih ⊢
    omega

theorem displayDecoding_of_unescapeString (s : Bytes) : ∀ u, unescapeString [] s = some u → displayDecoding s = u := by
  fun_induction unescapeString [] s with
  | case1 =>
    intro u same
    cases same
    rfl
  | case2 => 
    intro u never
    cases never
  | case3 first second tail d decoded legal ih =>
    intro u same
    obtain ⟨v, here, rfl⟩ := Option.map_eq_some_iff.mp same
    rw [displayDecoding_byte decoded (fun zero => legal (Or.inl zero)), ih v here]
  | case4 =>
    intro u never
    cases never
  | case5 =>
    intro u never
    cases never
  | case6 c rest plain ih =>
    intro u same
    obtain ⟨v, here, rfl⟩ := Option.map_eq_some_iff.mp same
    rw [displayDecoding_copy plain, ih v here]

/-- `gnome_vfs_unescape_string_for_display` ends with the decoding, which is not longer than the string, and
which is that of `gnome_vfs_unescape_string` where this gives one. -/
theorem unescapeStringForDisplay_refines (s : Bytes) :
    unescapeStringForDisplay s = some (displayDecoding s) ∧ (displayDecoding s).length ≤ s.length ∧
      ∀ u, unescapeString [] s = some u → unescapeStringForDisplay s = some u := by
  have ends : unescapeStringForDisplay s = some (displayDecoding s) := displayLoop_eq _ s (Nat.lt_succ_self _)
  refine ⟨ends, displayDecoding_length s, ?_⟩
  intro u strict
  rw [ends, displayDecoding_of_unescapeString s u strict]

example : unescapeStringForDisplay (ascii "%%20%1%41%00%") = some (ascii "% %1A%00%") := by decide

end GnomeVfs
