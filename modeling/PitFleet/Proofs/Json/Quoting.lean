import Mathlib.Tactic.Common
import PitFleet.Json.Basic
import PitFleet.Json.Quoted

/-!
# Quoted text is read back

A character stands between quotes as itself, behind a mark of one letter or as a unit
(`escape_cases`). Either way it is read as one piece that is joined to the character again
(`exists_piece`), so a quoted text is read back whole (`quoted_quote`).
-/

namespace PitFleet.Json

theorem escape_cases (c : Char) :
    (∃ m, escape c = ['\\', m] ∧ m ≠ 'u' ∧ unescape? m = some c)
      ∨ (c.toNat < 32
        ∧ escape c = ['\\', 'u', '0', '0', hexDigit (c.toNat / 16), hexDigit (c.toNat % 16)])
      ∨ (escape c = [c] ∧ c ≠ '"' ∧ c ≠ '\\' ∧ ¬ c.toNat < 32) := by
  unfold escape
  split_ifs with hquote hback hnewline hreturn htab hbackspace hfeed hcontrol
  case pos => subst hquote; exact .inl ⟨'"', rfl, by decide, rfl⟩
  case pos => subst hback; exact .inl ⟨'\\', rfl, by decide, rfl⟩
  case pos => subst hnewline; exact .inl ⟨'n', rfl, by decide, rfl⟩
  case pos => subst hreturn; exact .inl ⟨'r', rfl, by decide, rfl⟩
  case pos => subst htab; exact .inl ⟨'t', rfl, by decide, rfl⟩
  case pos => subst hbackspace; exact .inl ⟨'b', rfl, by decide, rfl⟩
  case pos => subst hfeed; exact .inl ⟨'f', rfl, by decide, rfl⟩
  case pos => exact .inr (.inl ⟨hcontrol, rfl⟩)
  case neg => exact .inr (.inr ⟨rfl, hquote, hback, hcontrol⟩)

theorem hexValue?_hexDigit : ∀ n < 16, hexValue? (hexDigit n) = some n := by
  decide

/-- The number of the digits that stand for a control character. -/
theorem hexNumber?_control {n : ℕ} (hn : n < 32) :
    hexNumber? ['0', '0', hexDigit (n / 16), hexDigit (n % 16)] = some n := by
  have hzero : hexValue? '0' = some 0 := rfl
  have hhigh := hexValue?_hexDigit (n / 16) (by omega)
  have hlow := hexValue?_hexDigit (n % 16) (by omega)
  simp [hexNumber?, hzero, hhigh, hlow]
  omega

theorem join_control {c : Char} (h : c.toNat < 32) (ps : List Piece) :
    join (.unit c.toNat :: ps) = (join ps).cons c := by
  have htrailing : isTrailing c.toNat = false := by
    simp [isTrailing]
    omega
  have hleading : isLeading c.toNat = false := by
    simp [isLeading]
    omega
  rw [join.eq_def]
  simp [htrailing, hleading]

theorem exists_piece (c : Char) : ∃ p, (∀ cs, pieces (escape c ++ cs) = attach p (pieces cs))
    ∧ ∀ ps, join (p :: ps) = (join ps).cons c := by
  rcases escape_cases c with ⟨m, hescape, hu, hm⟩ | ⟨hcontrol, hescape⟩ | ⟨hescape, hplain⟩
  · refine ⟨.char c, fun cs => ?_, fun ps => rfl⟩
    rw [hescape, List.cons_append, List.cons_append, List.nil_append]
    simp [pieces, hm]
  · refine ⟨.unit c.toNat, fun cs => ?_, join_control hcontrol⟩
    simp [hescape, pieces, hexNumber?_control hcontrol]
  · refine ⟨.char c, fun cs => ?_, fun ps => rfl⟩
    simp [hescape, pieces, hplain]

/-- The pieces of a quoted text are joined to it, and the closing quote ends it. -/
theorem exists_pieces (rest : List Char) : ∀ cs : List Char, ∃ ps,
    pieces (cs.flatMap escape ++ '"' :: rest) = (ps, .closed rest) ∧ join ps = .text cs
  | [] => ⟨[], by simp [pieces], rfl⟩
  | c :: cs => by
    obtain ⟨ps, hps, hcs⟩ := exists_pieces rest cs
    obtain ⟨p, hp, hc⟩ := exists_piece c
    refine ⟨p :: ps, ?_, ?_⟩
    · rw [List.flatMap_cons, List.append_assoc, hp, hps]
      rfl
    · rw [hc, hcs]
      rfl

theorem quoted_quote (s : String) (rest : List Char) :
    quoted (s.toList.flatMap escape ++ '"' :: rest) = .ok (some s, rest) := by
  obtain ⟨ps, hps, hs⟩ := exists_pieces rest s.toList
  simp [quoted, hps, hs]

end PitFleet.Json
