import ScriptTrace.Proofs.Refusals
import ScriptTrace.Proofs.SoundRules

/-!
# Sound programs are instrumented and printed

Placing probes and printing fit together: the rewriting of a well-formed program with a printed form is such a program
again. So nothing stands between the tree that a parser answers and the text of the program with its probes.

* `sound_ofJson` : a sound value as a tree;
* `instrument_sound` : a sound program gets its probes and stays sound;
* `instrumentSource_succeeds` : there is a text for every well-formed program with a printed form.
-/

namespace ScriptTrace

open Step

theorem sound_ofJson {j : Json} (h : j.Sound) : (Tree.ofJson j).Sound :=
  ⟨Tree.whole_ofJsonWith false j, (Tree.bare_ofJson j).symm ▸ h⟩

/-- Before the pass there is nothing in the queue and nothing shared. -/
theorem tidy_start (tree : Json) (code : Option String) : Tidy code (.start tree code) := ⟨rfl, rfl, nofun, nofun⟩

/-- The rewriting of a sound program, and that there is one. -/
theorem instrument_sound {tree : Json} (h : tree.Sound) (htype : tree.type? = some "Program") (code : Option String) :
    ∃ out, instrument tree code = .ok out ∧ out.Sound ∧ out.type? = some "Program" := by
  have hends := ends_start tree code htype
  have hcareful := careful_visitWith (Workspace.visitDepth tree) none (.start tree code) (tidy_start tree code)
    (sound_ofJson h) nofun
  rw [instrument_eq code htype]
  unfold Yields at hends hcareful
  rcases heffect : (visitWith (Workspace.visitDepth tree) none).effect (.start tree code) with ⟨r, s'⟩
  rw [heffect] at hends hcareful
  cases r with
  | error fault =>
    -- a careful visitor could only run out of depth, and the depth that it is given is enough
    obtain rfl : fault = .tooDeep := hcareful
    exact absurd hends id
  | ok a =>
    obtain ⟨htidy, hbecomes⟩ := hcareful
    refine ⟨_, rfl, ?_, hends⟩
    change (s'.focus.expand s'.parts).Sound
    rw [htidy.expand]
    exact hbecomes.sound.json

/-- **Sound programs are instrumented and printed.** Whatever the source text, a well-formed program with a printed
form gets its probes, and the result is printed; so a parser that answers such a tree leads to a text. -/
theorem instrumentSource_succeeds {tree : Json} (hformed : tree.WellFormed) (hsupported : tree.Supported) :
    (∀ code, ∃ out text, instrument tree code = .ok out ∧ out.WellFormed ∧ out.Supported ∧
      printNode out = .ok (.str text)) ∧
    ∀ code, ∃ text, instrumentSource code (.tree tree) = .ok text := by
  obtain ⟨htype, hproper⟩ := hformed
  have hprints : ∀ code, ∃ out text, instrument tree code = .ok out ∧ out.WellFormed ∧ out.Supported ∧
      printNode out = .ok (.str text) := by
    intro code
    obtain ⟨out, hrun, hout, houtType⟩ := instrument_sound (Json.sound_iff.2 ⟨hproper, hsupported⟩) htype code
    obtain ⟨_, hprint, text, rfl⟩ := (hout.printProgram houtType).exists_ok
    obtain ⟨houtProper, houtSupported⟩ := Json.sound_iff.1 hout
    exact ⟨out, text, hrun, ⟨houtType, houtProper⟩, houtSupported, hprint⟩
  refine ⟨hprints, fun code => ?_⟩
  obtain ⟨out, text, hrun, -, -, hprint⟩ := hprints (some code)
  exact ⟨text, instrumentedText_eq_ok.2 ⟨out, hrun, hprint⟩⟩

theorem instrumentSource_succeeds_echo :
    (echoProgram.WellFormed ∧ echoProgram.Supported) ∧ ∀ code, ∃ text, instrumentSource code (.tree echoProgram) = .ok text :=
  have hformed : echoProgram.WellFormed := by decide +kernel
  have hsupported : echoProgram.Supported := by decide +kernel
  ⟨⟨hformed, hsupported⟩, (instrumentSource_succeeds hformed hsupported).2⟩

end ScriptTrace
