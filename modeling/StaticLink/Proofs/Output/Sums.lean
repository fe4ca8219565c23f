import StaticLink.Proofs.Output.OptionalSections
import StaticLink.Proofs.Output.Safety

/-!
# Sums of indices

Where a number that linking adds up is no word, the link ends. It does not get a wrong index, and it
does not report what is wrong either.

* `link_sums`: for few inputs, every number that linking goes on with is a word, and a link ends for
  a number that is none only if an input states something that is out of its own bounds.
* `LinkOverflows`: a link ends so; `link_overflows`: inputs for which it does.
-/

namespace StaticLink

/-- Of the numbers that linking adds up, none is too large for a word if what the sum takes for
granted holds, and most take nothing for granted. The others are seen to be words before linking goes
on with them. A link that ends there has an input that is not in range. -/
theorem link_sums {inputs : List (String × Bytes)} (small : totalSize inputs < wordLimit)
    (options : Options) :
    (∀ program, Program.ofInputs inputs options = .ok program →
      (∀ number granted, program.Sum number granted → granted → number < wordLimit) ∧
        (∀ number, program.Summed number → number < wordLimit) ∧ program.AddsUp) ∧
    ∀ session, Session.addAll inputs .empty = .ok () session →
      session.link options = .error .overflow → ∃ module ∈ session.modules, ¬ module.InRange := by
  constructor
  · intro program decided
    have bounded := Program.bounded_of_ofInputs decided
    have measured := Program.measured_of_ofInputs decided
    have sums {number : Nat} {granted : Prop} (sum : program.Sum number granted) (holds : granted) :
        number < wordLimit := measured.lt_wordLimit small (bounded.few_of_sum sum holds)
    refine ⟨fun _ _ => sums, ?_, Program.addsUp_of_ofInputs decided⟩
    rintro number ⟨granted, sum, holds | seen⟩
    · exact sums sum holds
    · exact seen
  · intro session added overflowed
    have intact := Session.addAll_intact added
    have measured := Session.addAll_measured added
    have blames : Blames (fun _ => True) (∃ module ∈ session.modules, ¬ module.InRange)
        (session.link options) := by
      refine Session.blames_link intact options (Program.explainsTypes_of_measured measured small) ?_
      intro program ofSession
      have decided : Program.ofInputs inputs options = .ok program := by
        rw [Program.ofInputs, added]
        exact ofSession
      have bounded := Program.bounded_of_ofInputs decided
      have explains := bounded.explains (Program.measured_of_ofInputs decided) small
      rw [← (Program.decided_of_ofSession ofSession).modules] at explains
      exact ⟨explains, fun _ _ _ _ => trivial⟩
    exact (blames _ overflowed).number rfl

/-- The type of the function in the second input of `pair`. -/
theorem link_pair_sums : ∃ (program : Program) (module : ObjectModule),
    Program.ofInputs pair {} = .ok program ∧ program.modules[1]? = some module ∧
      module.StatesType 0 ∧ program.typeBase 1 = 1 ∧ program.typeBase 1 + 0 < wordLimit ∧
      program.AddsUp := by
  have small : totalSize pair < wordLimit := by decide +kernel
  have facts : ((Program.ofInputs pair {}).map fun program =>
      (program.modules[1]?.map fun module => (module.functions, module.declaredCount .types),
        program.typeBase 1, decide (program.Declares .types))) =
        .ok (some (#[0], 1), 1, true) := by decide +kernel
  rcases decided : Program.ofInputs pair {} with error | program
  · rw [decided] at facts
    cases facts
  · rw [decided] at facts
    obtain ⟨second, facts⟩ := Prod.mk.inj (Except.ok.inj facts)
    obtain ⟨base, declares⟩ := Prod.mk.inj facts
    obtain ⟨module, input, same⟩ := Option.map_eq_some_iff.1 second
    obtain ⟨functions, declared⟩ := Prod.mk.inj same
    have stated : module.StatesType 0 := .inl (by simp [functions])
    obtain ⟨sums, -, addsUp⟩ := (link_sums small {}).1 program decided
    have within := sums _ _ (.typeIndex input stated)
      ⟨of_decide_eq_true declares, by rw [declared]; decide⟩
    exact ⟨program, module, rfl, input, stated, base, within, addsUp⟩

/-- Of two inputs the second fills the table with a function that it does not have. -/
def strangeEntry : List (String × Bytes) :=
  pair.take 1 ++ [("entry.o",
    [0, 97, 115, 109, 1, 0, 0, 0, 1, 4, 1, 96, 0, 0, 3, 2, 1, 0, 9, 11, 1, 0, 65, 1, 11, 1, 255,
      255, 255, 255, 15, 10, 4, 1, 2, 0, 11, 0, 17, 7, 108, 105, 110, 107, 105, 110, 103, 2, 8, 6,
      1, 0, 0, 0, 1, 103])]

/-- Of two inputs the second has a function with a type that it does not have. -/
def strangeType : List (String × Bytes) :=
  pair.take 1 ++ [("type.o",
    [0, 97, 115, 109, 1, 0, 0, 0, 1, 4, 1, 96, 0, 0, 3, 6, 1, 255, 255, 255, 255, 15, 10, 4, 1, 2,
      0, 11, 0, 17, 7, 108, 105, 110, 107, 105, 110, 103, 2, 8, 6, 1, 0, 0, 0, 1, 103])]

/-- Of two inputs the second declares more types than it has bytes. -/
def strangeTypes : List (String × Bytes) :=
  pair.take 1 ++ [("types.o",
    [0, 97, 115, 109, 1, 0, 0, 0, 1, 8, 255, 255, 255, 255, 15, 96, 0, 0, 3, 2, 1, 0, 10, 4, 1, 2,
      0, 11, 0, 17, 7, 108, 105, 110, 107, 105, 110, 103, 2, 8, 6, 1, 0, 0, 0, 1, 103])]

/-- Of two inputs the second declares more bodies than it has bytes. -/
def strangeBodies : List (String × Bytes) :=
  pair.take 1 ++ [("bodies.o",
    [0, 97, 115, 109, 1, 0, 0, 0, 1, 4, 1, 96, 0, 0, 3, 2, 1, 0, 10, 8, 255, 255, 255, 255, 15, 2,
      0, 11, 0, 17, 7, 108, 105, 110, 107, 105, 110, 103, 2, 8, 6, 1, 0, 0, 0, 1, 103])]

/-- All inputs are read, and their link ends for a number that is no word. -/
def LinkOverflows (inputs : List (String × Bytes)) (options : Options) : Prop :=
  ∃ session, Session.addAll inputs .empty = .ok () session ∧
    session.link options = .error .overflow

instance (inputs : List (String × Bytes)) (options : Options) :
    Decidable (LinkOverflows inputs options) :=
  decidable_of_iff ((match Session.addAll inputs .empty with
    | .ok _ session => decide (session.link options = .error .overflow)
    | .error _ _ => false) = true) (by unfold LinkOverflows; split <;> simp [*])

/-- A number that is no word is not reported as an error of the input that states it. -/
theorem link_overflows :
    LinkOverflows strangeEntry {} ∧ LinkOverflows strangeType {} ∧ LinkOverflows strangeTypes {} ∧
      LinkOverflows strangeBodies {} ∧ LinkOverflows strayNaming { debugNames := true } := by
  refine ⟨?_, ?_, ?_, ?_, ?_⟩ <;> decide +kernel

end StaticLink
