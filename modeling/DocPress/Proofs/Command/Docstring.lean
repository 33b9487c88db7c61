import DocPress.Command.Run
import DocPress.Proofs.Text.Dedent

-- Docstrings in files. The margin of the file is taken off before anything is read, so a docstring
-- may be indented as a whole.

namespace DocPress.Command

open Text

variable {d d' : Disk} {file : Path} {p x y : Text} {rst : Bool} {settings : Settings}

-- A docstring is read from the text without its margin.
theorem run_docstring_congr (hx : d.read file = .ok x) (hy : d'.read file = .ok y)
    (h : dedent y = dedent x) :
    run settings d' (.docstring file rst) = run settings d (.docstring file rst) := by
  have hi : input d file = .ok x := by rw [input, hx]; rfl
  have hi' : input d' file = .ok y := by rw [input, hy]; rfl
  simp only [run, hi, hi', bind, Except.bind, h]

-- Dedenting is the one way to take the longest indentation off all lines that are not blank. It
-- changes nothing when it is done again, and it cancels indentation that is put in front of the
-- text, so that a file with an indented docstring has the same output.
theorem dedent_cancels_indent (x : Text) :
    (∀ y, (∃ m, TakesOff m x y) ↔ y = dedent x) ∧
      dedent (dedent x) = dedent x ∧
      ∀ p, (∀ c ∈ p, isIndent c) →
        dedent (indent p x) = dedent x ∧
          ∀ settings d d' file rst, Disk.read d file = .ok x → Disk.read d' file = .ok (indent p x) →
            run settings d' (.docstring file rst) = run settings d (.docstring file rst) := by
  refine ⟨fun y => ⟨fun ⟨_, h⟩ => h.eq_dedent, fun h => ⟨_, h ▸ takesOff_dedent x⟩⟩,
    dedent_dedent x, fun p hp => ⟨dedent_indent hp x, ?_⟩⟩
  intro settings d d' file rst hx hy
  exact run_docstring_congr hx hy (dedent_indent hp x)

theorem dedent_cancels_indent_mixed :
    let x : Text := " \tReturns\n \t-------\n\u3000\n \t x\n"
    let p : Text := "\t "
    let d : Disk := ⟨[(["f.txt"], .file (some x))]⟩
    let d' : Disk := ⟨[(["f.txt"], .file (some (indent p x)))]⟩
    (∃ m, TakesOff m x "Returns\n-------\n\n x\n") ∧
      (∀ c ∈ p, isIndent c) ∧ d.read "f.txt" = .ok x ∧ d'.read "f.txt" = .ok (indent p x) ∧
      run {} d' (.docstring "f.txt" true) = run {} d (.docstring "f.txt" true) := by
  intro x p d d'
  have hp : ∀ c ∈ p, isIndent c := by simp [p, isIndent]
  have hx : d.read "f.txt" = .ok x := by decide +kernel
  have hy : d'.read "f.txt" = .ok (indent p x) := by decide +kernel
  obtain ⟨hm, -, hi⟩ := dedent_cancels_indent x
  obtain ⟨-, hr⟩ := hi p hp
  exact ⟨(hm _).mpr (by decide +kernel), hp, hx, hy, hr {} d d' "f.txt" true hx hy⟩

end DocPress.Command
