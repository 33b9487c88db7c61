import DocPress.Proofs.Disk.Files
import DocPress.Proofs.Settings.Documents
import DocPress.Settings.Storage

-- Settings that were saved to a file are loaded from it without a change.

namespace DocPress

variable {d d' : Disk} {p : Path} {s : Settings} {x : Text} {env : Environment}

namespace Environment

theorem expandVariables_eq_self (h : '$' ∉ x) : env.expandVariables x = some x := by
  induction x
  case nil => simp [expandVariables]
  case cons c x ih =>
    obtain ⟨hc, hx⟩ := List.ne_and_not_mem_of_not_mem_cons h
    have he : env.expandVariables (c :: x) = (c :: ·) <$> env.expandVariables x :=
      (expandVariables.eq_def env (c :: x)).trans (if_pos (Ne.symm hc))
    rw [he, ih hx]
    rfl

-- A text stays as it is if it names no variable and does not start at the home directory.
theorem expand_eq_self (hv : '$' ∉ x) (hh : x.head? ≠ some '~') : env.expand x = x := by
  have he : env.expandHome x = x := by
    unfold expandHome
    split
    case h_1 => exact absurd rfl hh
    case h_2 => rfl
  simp only [expand, expandVariables_eq_self hv, he, if_neg (mt And.right hh)]

end Environment

namespace Settings

theorem save_eq_ok_iff :
    save d p s = .ok d' ↔
      s.markdown.htmlIndent ≤ maxCount ∧
        ∃ e, d.withParent p = .ok e ∧ e.write p s.toText = .ok d' := by
  have hs : save d p s = (d.withParent p).mapError .fault >>= fun e =>
      s.toText?.elim (.error .tooLarge) fun x => (e.write p x).mapError .fault := by
    rw [save, Disk.withParent]
    cases p.parent? <;> cases s.toText? <;> rfl
  rw [hs, toText?]
  cases d.withParent p
  case error => simp [bind, Except.bind, Except.mapError]
  case ok e =>
    by_cases hi : s.markdown.htmlIndent ≤ maxCount
    case neg => simp [hi, bind, Except.bind, Except.mapError]
    case pos =>
      cases hw : e.write p s.toText
      all_goals simp [hi, hw, bind, Except.bind, Except.mapError]

-- Settings can be saved exactly if the path leads to a file, or to a place for one, and their
-- number is one that a document can hold.
theorem exists_save_iff :
    (∃ d', save d p s = .ok d') ↔ s.markdown.htmlIndent ≤ maxCount ∧ d.Writable p := by
  constructor
  case mp =>
    intro ⟨d', h⟩
    have ⟨hi, e, he, hw⟩ := save_eq_ok_iff.mp h
    have ⟨q, hq, hn, _⟩ := (Disk.write_eq_ok_iff _).mp hw
    exact ⟨hi, e, q, he, hq, hn⟩
  case mpr =>
    intro ⟨hi, e, q, he, hq, hn⟩
    exact ⟨_, save_eq_ok_iff.mpr ⟨hi, e, he, (Disk.write_eq_ok_iff _).mpr ⟨q, hq, hn, rfl⟩⟩⟩

theorem load_of_save (h : save d p s = .ok d')
    (hd : ∀ dir ∈ s.outputDir, '$' ∉ dir ∧ dir.head? ≠ some '~') :
    load env d' p = .ok (some s) := by
  have ⟨hi, e, he, hw⟩ := save_eq_ok_iff.mp h
  have ⟨hx, hr⟩ := Disk.read_of_write hw
  have ho : s.outputDir.map env.expand = s.outputDir := by
    cases ho : s.outputDir
    case none => rfl
    case some dir =>
      have ⟨hv, hh⟩ := hd dir ho
      rw [Option.map_some, Environment.expand_eq_self hv hh]
  simp [load, hx, hr, ofText?_toText hi, ho]

-- What is saved to a path that can be written is loaded from it again, for all texts that the
-- settings may hold.
theorem load_save (env : Environment) (hw : d.Writable p) (hi : s.markdown.htmlIndent ≤ maxCount)
    (hd : ∀ dir ∈ s.outputDir, '$' ∉ dir ∧ dir.head? ≠ some '~') :
    ∃ d', save d p s = .ok d' ∧ load env d' p = .ok (some s) := by
  have ⟨d', hs⟩ := exists_save_iff.mpr ⟨hi, hw⟩
  exact ⟨d', hs, load_of_save hs hd⟩

theorem load_save_quotes :
    let s : Settings := {
      outputDir  := some "out \"of\" \\ range\n"
      markdown   := {
        codeLanguages    := []
        defaultCodeClass := "it's\r\n\"\"\""
        htmlIndent       := maxCount
      }
      docstrings := ⟨[""], ["'''", "\x00\t\x7F"]⟩
    }
    Disk.empty.Writable "etc/docs.toml" ∧ s.markdown.htmlIndent ≤ maxCount ∧
      (∀ dir ∈ s.outputDir, '$' ∉ dir ∧ dir.head? ≠ some '~') ∧
      ∃ d', save .empty "etc/docs.toml" s = .ok d' ∧
        load ⟨[("HOME", "/root")]⟩ d' "etc/docs.toml" = .ok (some s) := by
  intro s
  have hw : Disk.empty.Writable "etc/docs.toml" :=
    ⟨⟨[(["etc"], .directory)]⟩, ["etc", "docs.toml"], by rfl, by rfl, by decide⟩
  have hi : s.markdown.htmlIndent ≤ maxCount := Nat.le_refl _
  have hd : ∀ dir ∈ s.outputDir, '$' ∉ dir ∧ dir.head? ≠ some '~' := by decide
  exact ⟨hw, hi, hd, load_save _ hw hi hd⟩

end Settings
end DocPress
