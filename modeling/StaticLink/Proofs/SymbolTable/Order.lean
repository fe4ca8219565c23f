import Mathlib.Data.List.Perm.Basic
import StaticLink.Proofs.SymbolTable.Resolution

/-!
# Symbols of one name in another order

What the symbols of one name come to depends on their order in one case only: a weak definition
and a strong one have the same target. The one that comes first is then kept with its own binding,
so that a weak twin in front hides the strong one.

* `settleFrom`: the record of a name after some symbols of that name, or why one is refused.
* `Stands`: what symbols without twins say of their record, in whatever order they come;
  `Tolerates`: what is left of this if there are twins.
* `SymbolTable.Clashes`: a symbol is refused for what was added before it.
* `SymbolTable.SameOutcome`: two orders of the symbols of a name come to the same.
* `SymbolTable.sameOutcome_iff`: when all orders of some symbols come to the same.
-/

namespace StaticLink

variable {symbols first second : List Symbol} {symbol record next : Symbol} {name : String}

/-! ## The record of one name -/

/-- The record of a name after `symbols`, all of this name, or why one of them is refused. Before
them the name has the record `standing`, if any. -/
def settleFrom (standing : Option Symbol) (symbols : List Symbol) : Except Error (Option Symbol) :=
  symbols.foldlM (fun standing symbol => some <$> Symbol.settle standing symbol) standing

theorem settleFrom_append (standing : Option Symbol) (first second : List Symbol) :
    settleFrom standing (first ++ second) =
      settleFrom standing first >>= fun middle => settleFrom middle second := List.foldlM_append

theorem settleFrom_cons (standing : Option Symbol) (symbol : Symbol) (rest : List Symbol) :
    settleFrom standing (symbol :: rest) =
      Symbol.settle standing symbol >>= fun record => settleFrom (some record) rest := by
  unfold settleFrom
  rw [List.foldlM_cons]
  cases Symbol.settle standing symbol <;> rfl

/-- A symbol more is settled with the record of those before it. -/
theorem settleFrom_concat (standing : Option Symbol) (symbols : List Symbol) (symbol : Symbol) :
    settleFrom standing (symbols ++ [symbol]) =
      settleFrom standing symbols >>= fun middle => some <$> Symbol.settle middle symbol := by
  rw [settleFrom_append]
  refine congrArg _ (funext fun middle => ?_)
  rw [settleFrom_cons]
  cases Symbol.settle middle symbol <;> rfl

theorem settleFrom_concat_eq_ok {before standing : Option Symbol}
    (h : settleFrom before (symbols ++ [symbol]) = .ok standing) :
    ∃ middle record, settleFrom before symbols = .ok middle ∧
      Symbol.settle middle symbol = .ok record ∧ standing = some record := by
  rw [settleFrom_concat] at h
  obtain ⟨middle, earlier, h⟩ := bind_eq_ok.1 h
  rcases settled : Symbol.settle middle symbol with error | record
  · rw [settled] at h
    cases h
  · rw [settled] at h
    cases h
    exact ⟨middle, record, earlier, settled, rfl⟩

/-- A record that every symbol leaves as it is. -/
theorem settleFrom_of_keep (keep : ∀ symbol ∈ symbols, record.merge symbol = .ok .keep) :
    settleFrom (some record) symbols = .ok (some record) := by
  induction symbols with
  | nil => rfl
  | cons symbol rest ih =>
    obtain ⟨here, later⟩ := List.forall_mem_cons.1 keep
    rw [settleFrom_cons, Symbol.settle_some, here]
    exact ih later

/-! ## What symbols say of their record -/

/-- A weak definition and a strong one that have the same target. -/
def Twins (weak strong : Symbol) : Prop :=
  weak.isWeakDefinition = true ∧ strong.isStrongDefinition = true ∧ weak.target = strong.target

instance (weak strong : Symbol) : Decidable (Twins weak strong) :=
  inferInstanceAs (Decidable (_ ∧ _))

/-- No weak definition among the symbols has the target of a strong one. -/
def Untwinned (symbols : List Symbol) : Prop :=
  ∀ weak ∈ symbols, ∀ strong ∈ symbols, ¬ Twins weak strong

instance (symbols : List Symbol) : Decidable (Untwinned symbols) :=
  inferInstanceAs (Decidable (∀ weak ∈ symbols, ∀ strong ∈ symbols, _))

/-- What the record of some symbols must be, in whatever order they came. -/
structure Stands (symbols : List Symbol) (record : Symbol) : Prop where
  kind : ∀ symbol ∈ symbols, symbol.target.kind = record.target.kind
  definition : record.isDefinition = true → record ∈ symbols
  isUndefined : record.isUndefined = symbols.all (·.isUndefined)
  isWeak : record.isWeak = (!symbols.any (·.isStrongDefinition) &&
    (symbols.any (·.isWeakDefinition) || symbols.all (·.isWeak)))
  strong : ∀ symbol ∈ symbols, symbol.isStrongDefinition = true → record.target = symbol.target

theorem stands_singleton (symbol : Symbol) : Stands [symbol] symbol := by
  constructor <;> simp [Symbol.isStrongDefinition, Symbol.isWeakDefinition, Symbol.isDefinition]
  grind

/-- A symbol that the record stays for. -/
theorem Stands.keep (stands : Stands symbols record)
    (apart : ∀ weak ∈ symbols, ¬ Twins weak symbol)
    (merged : record.merge symbol = .ok .keep) : Stands (symbols ++ [symbol]) record := by
  obtain ⟨kind, definition, isUndefined, isWeak, strong⟩ := stands
  obtain ⟨same, merged⟩ := Symbol.merge_eq_keep_iff.1 merged
  unfold Twins at apart
  constructor
  · grind
  · grind
  · rw [List.all_append]
    grind
  · rw [List.any_append, List.any_append, List.all_append]
    simp only [Symbol.isStrongDefinition, Symbol.isWeakDefinition, Symbol.isDefinition] at *
    grind
  · simp only [Symbol.isStrongDefinition, Symbol.isWeakDefinition, Symbol.isDefinition] at *
    grind

/-- A weak reference that loses its flag. -/
theorem Stands.strengthen (stands : Stands symbols record)
    (merged : record.merge symbol = .ok .strengthen) :
    Stands (symbols ++ [symbol]) record.strengthened := by
  obtain ⟨kind, definition, isUndefined, isWeak, strong⟩ := stands
  obtain ⟨same, undefined, reference, -, flag⟩ := Symbol.merge_eq_strengthen_iff.1 merged
  have target : record.strengthened.isUndefined = record.isUndefined := rfl
  -- All symbols are references, so that no definition is to be considered.
  have none (other : Symbol) (member : other ∈ symbols ++ [symbol]) : other.isUndefined = true := by
    grind
  constructor
  · rw [Symbol.target_strengthened]
    grind
  · rw [Symbol.isDefinition, target, reference]
    simp
  · rw [target, reference, eq_comm, List.all_eq_true]
    exact none
  · rw [Symbol.isWeak_strengthened, List.all_append]
    simp only [Symbol.isWeakDefinition, Symbol.isDefinition]
    grind
  · simp only [Symbol.isStrongDefinition, Symbol.isDefinition]
    grind

/-- A definition that takes the place of the record. -/
theorem Stands.replace (stands : Stands symbols record)
    (merged : record.merge symbol = .ok .replace) : Stands (symbols ++ [symbol]) symbol := by
  obtain ⟨kind, definition, isUndefined, isWeak, strong⟩ := stands
  obtain ⟨same, defined, weaker⟩ := Symbol.merge_eq_replace_iff.1 merged
  -- There was no strong definition, or the record would not give way.
  have none : symbols.any (·.isStrongDefinition) = false := by
    simp only [Symbol.isStrongDefinition, Symbol.isWeakDefinition, Symbol.isDefinition] at *
    grind
  constructor
  · grind
  · intro _
    exact List.mem_append_right _ (List.mem_singleton_self symbol)
  · rw [List.all_append]
    simp [defined]
  · rw [List.any_append, List.any_append, List.all_append, none]
    simp only [Symbol.isStrongDefinition, Symbol.isWeakDefinition, Symbol.isDefinition]
    grind
  · simp only [List.any_eq_false] at none
    grind

theorem Stands.settle (stands : Stands symbols record)
    (apart : ∀ weak ∈ symbols, ¬ Twins weak symbol)
    (settled : Symbol.settle (some record) symbol = .ok next) :
    Stands (symbols ++ [symbol]) next := by
  obtain ⟨merge, merged, rfl⟩ := Symbol.exists_merge_of_settle settled
  cases merge with
  | keep => exact stands.keep apart merged
  | strengthen => exact stands.strengthen merged
  | replace => exact stands.replace merged

/-- Two symbols of one name that are not accepted together. -/
def Conflicting (one two : Symbol) : Prop :=
  one.target.kind ≠ two.target.kind ∨
    one.isStrongDefinition = true ∧ two.isStrongDefinition = true ∧ one.target ≠ two.target

/-- Without symbols there is no record, and only then. -/
theorem settleFrom_none_eq_ok_none (h : settleFrom none symbols = .ok none) : symbols = [] := by
  induction symbols using List.reverseRecOn with
  | nil => rfl
  | append_singleton symbols symbol _ =>
    obtain ⟨_, _, _, _, same⟩ := settleFrom_concat_eq_ok h
    cases same

/-- What is known of a record that one more symbol keeps is known of the record of some symbols. -/
theorem settleFrom_keeps {P : List Symbol → Symbol → Prop} (first : ∀ symbol, P [symbol] symbol)
    (step : ∀ symbols record symbol next, P symbols record →
      Symbol.settle (some record) symbol = .ok next → P (symbols ++ [symbol]) next)
    (h : settleFrom none symbols = .ok (some record)) : P symbols record := by
  induction symbols using List.reverseRecOn generalizing record with
  | nil => cases h
  | append_singleton symbols symbol ih =>
    obtain ⟨middle, next, before, settled, same⟩ := settleFrom_concat_eq_ok h
    cases same
    rcases middle with _ | middle
    · obtain rfl := settleFrom_none_eq_ok_none before
      cases settled
      exact first symbol
    · exact step symbols middle symbol record (ih before) settled

theorem stands_of_settleFrom (untwinned : Untwinned symbols)
    (h : settleFrom none symbols = .ok (some record)) : Stands symbols record := by
  refine settleFrom_keeps (P := fun symbols record => Untwinned symbols → Stands symbols record)
    (fun symbol _ => stands_singleton symbol) ?_ h untwinned
  intro symbols record symbol next stands settled untwinned
  refine (stands fun weak one strong two => ?_).settle (fun weak one => ?_) settled
  · exact untwinned weak (List.mem_append_left _ one) strong (List.mem_append_left _ two)
  · exact untwinned weak (List.mem_append_left _ one) symbol
      (List.mem_append_right _ (List.mem_singleton_self symbol))

/-- Whether a symbol is refused does not depend on the order of the symbols. -/
theorem exists_error_iff_of_untwinned (untwinned : Untwinned symbols) :
    (∃ error, settleFrom none symbols = .error error) ↔
      ∃ one ∈ symbols, ∃ two ∈ symbols, Conflicting one two := by
  constructor
  · rintro ⟨error, h⟩
    induction symbols using List.reverseRecOn generalizing error with
    | nil => cases h
    | append_singleton symbols symbol ih =>
      have earlier : Untwinned symbols := fun weak one strong two =>
        untwinned weak (List.mem_append_left _ one) strong (List.mem_append_left _ two)
      have last : symbol ∈ symbols ++ [symbol] :=
        List.mem_append_right _ (List.mem_singleton_self symbol)
      rw [settleFrom_concat] at h
      rcases before : settleFrom none symbols with cause | middle
      · obtain ⟨one, first, two, second, conflict⟩ := ih earlier cause before
        exact ⟨one, List.mem_append_left _ first, two, List.mem_append_left _ second, conflict⟩
      rw [before] at h
      rcases middle with _ | record
      · cases h
      have stands := stands_of_settleFrom earlier before
      rcases settled : Symbol.settle (some record) symbol with cause | next
      · rcases Symbol.merge_eq_error_iff.1 (Symbol.settle_eq_error_iff.1 settled) with
          ⟨kinds, -⟩ | ⟨-, strong, strong', targets, -⟩
        · -- The record is of the kind of every symbol before this one.
          have some : symbols ≠ [] := by
            rintro rfl
            cases before
          obtain ⟨one, first⟩ := List.exists_mem_of_ne_nil symbols some
          refine ⟨one, List.mem_append_left _ first, symbol, last, .inl ?_⟩
          rw [stands.kind one first]
          exact kinds
        · have first := stands.definition (Bool.and_eq_true_iff.1 strong).1
          exact ⟨record, List.mem_append_left _ first, symbol, last, .inr ⟨strong, strong', targets⟩⟩
      · rw [show Except.ok (some record) >>= _ = some <$> Symbol.settle (some record) symbol from rfl,
          settled] at h
        cases h
  · rintro ⟨one, first, two, second, conflict⟩
    rcases h : settleFrom none symbols with error | standing
    · exact ⟨error, rfl⟩
    rcases standing with _ | record
    · rw [settleFrom_none_eq_ok_none h] at first
      cases first
    have stands := stands_of_settleFrom untwinned h
    rcases conflict with kinds | ⟨strong, strong', targets⟩
    · exact absurd ((stands.kind one first).trans (stands.kind two second).symm) kinds
    · exact absurd ((stands.strong one first strong).symm.trans (stands.strong two second strong'))
        targets

/-! ## Orders that are never accepted -/

/-- In whatever order the symbols come, some symbol is refused: they are of two kinds, or they are
strong definitions of three targets, of which a twin can hide only one. -/
def Irreconcilable (symbols : List Symbol) : Prop :=
  (∃ one ∈ symbols, ∃ two ∈ symbols, one.target.kind ≠ two.target.kind) ∨
    ∃ one ∈ symbols, ∃ two ∈ symbols, ∃ three ∈ symbols,
      (one.isStrongDefinition = true ∧ two.isStrongDefinition = true ∧
        three.isStrongDefinition = true) ∧
      one.target ≠ two.target ∧ one.target ≠ three.target ∧ two.target ≠ three.target

/-- What the record of some symbols says of them, twins or not. -/
structure Tolerates (symbols : List Symbol) (record : Symbol) : Prop where
  kind : ∀ symbol ∈ symbols, symbol.target.kind = record.target.kind
  /-- Strong definitions have the target of the record or that of a twin before it. -/
  strong : ∃ hidden, (record.isStrongDefinition = false → hidden = record.target) ∧
    ∀ symbol ∈ symbols, symbol.isStrongDefinition = true →
      symbol.target = record.target ∨ symbol.target = hidden

theorem Tolerates.settle (tolerates : Tolerates symbols record)
    (settled : Symbol.settle (some record) symbol = .ok next) :
    Tolerates (symbols ++ [symbol]) next := by
  obtain ⟨kind, hidden, weak, strong⟩ := tolerates
  obtain ⟨merge, merged, rfl⟩ := Symbol.exists_merge_of_settle settled
  have same := Symbol.kind_eq_of_merge_eq_ok merged
  have undefined (one two : Symbol) (same : one.target = two.target) :
      one.isUndefined = two.isUndefined := congrArg Target.isUndefined same
  cases merge with
  | keep =>
    refine ⟨by grind, hidden, weak, ?_⟩
    rw [Symbol.merge_eq_keep_iff] at merged
    simp only [Symbol.isStrongDefinition, Symbol.isDefinition] at *
    grind
  | strengthen =>
    obtain ⟨-, incoming, reference, -, -⟩ := Symbol.merge_eq_strengthen_iff.1 merged
    refine ⟨by simp only [Symbol.target_strengthened]; grind, hidden, ?_, ?_⟩
    · simp only [Symbol.isStrongDefinition, Symbol.isDefinition, Symbol.target_strengthened] at *
      grind
    · simp only [Symbol.isStrongDefinition, Symbol.isDefinition, Symbol.target_strengthened] at *
      grind
  | replace =>
    obtain ⟨-, incoming, weaker⟩ := Symbol.merge_eq_replace_iff.1 merged
    -- The record that is replaced is no strong definition, so that it hides its own target only.
    have replaced : record.isStrongDefinition = false := by
      simp only [Symbol.isStrongDefinition, Symbol.isDefinition]
      grind
    have only := weak replaced
    subst only
    rcases flag : symbol.isWeak
    · refine ⟨by grind, record.target, ?_, ?_⟩
      · simp [Symbol.isStrongDefinition, Symbol.isDefinition, incoming, flag]
      · grind
    · refine ⟨by grind, symbol.target, fun _ => rfl, ?_⟩
      simp only [Symbol.isStrongDefinition, Symbol.isDefinition] at *
      grind

theorem tolerates_of_settleFrom (h : settleFrom none symbols = .ok (some record)) :
    Tolerates symbols record := by
  refine settleFrom_keeps (P := Tolerates) ?_ (fun _ _ _ _ => .settle) h
  intro symbol
  exact ⟨by simp, symbol.target, fun _ => rfl, by simp⟩

theorem exists_error_of_irreconcilable (irreconcilable : Irreconcilable symbols) :
    ∃ error, settleFrom none symbols = .error error := by
  rcases h : settleFrom none symbols with error | standing
  · exact ⟨error, rfl⟩
  exfalso
  rcases standing with _ | record
  · rw [settleFrom_none_eq_ok_none h] at irreconcilable
    rcases irreconcilable with ⟨_, first, -⟩ | ⟨_, first, -⟩ <;> cases first
  obtain ⟨kind, hidden, -, strong⟩ := tolerates_of_settleFrom h
  rcases irreconcilable with ⟨one, first, two, second, kinds⟩ |
    ⟨one, first, two, second, three, third, ⟨strong₁, strong₂, strong₃⟩, apart⟩
  · exact kinds ((kind one first).trans (kind two second).symm)
  · -- Two of the three targets are the same.
    have first := strong one first strong₁
    have second := strong two second strong₂
    have third := strong three third strong₃
    grind

/-! ## Twins -/

/-- A definition stays for references, for weak definitions and for those of its own target. -/
theorem merge_eq_keep (defined : record.isDefinition = true)
    (kinds : record.target.kind = symbol.target.kind)
    (yields : symbol.isStrongDefinition = true → symbol.target = record.target) :
    record.merge symbol = .ok .keep := by
  rw [Symbol.merge_eq_keep_iff]
  simp only [Symbol.isStrongDefinition, Symbol.isDefinition] at *
  grind

/-- A strong definition stays, and no strong definition of another target is accepted after it. -/
theorem settleFrom_strong {standing : Option Symbol} (strong : record.isStrongDefinition = true)
    (h : settleFrom (some record) symbols = .ok standing) :
    standing = some record ∧
      ∀ symbol ∈ symbols, symbol.isStrongDefinition = true → symbol.target = record.target := by
  induction symbols with
  | nil =>
    cases h
    exact ⟨rfl, by simp⟩
  | cons symbol rest ih =>
    rw [settleFrom_cons] at h
    obtain ⟨next, settled, h⟩ := bind_eq_ok.1 h
    obtain ⟨merge, merged, rfl⟩ := Symbol.exists_merge_of_settle settled
    have keep : merge = .keep ∧
        (symbol.isStrongDefinition = true → symbol.target = record.target) := by
      unfold Symbol.merge at merged
      simp only [Symbol.isStrongDefinition, Symbol.isDefinition] at *
      grind
    obtain ⟨rfl, same⟩ := keep
    obtain ⟨stays, later⟩ := ih h
    exact ⟨stays, List.forall_mem_cons.2 ⟨same, later⟩⟩

/-- The symbol takes the place of the weak definition: it is a strong definition of another target. -/
def Symbol.yieldsTo (weak symbol : Symbol) : Bool :=
  symbol.isStrongDefinition && symbol.target != weak.target

theorem Symbol.yieldsTo_iff {weak symbol : Symbol} : weak.yieldsTo symbol = true ↔
    symbol.isStrongDefinition = true ∧ symbol.target ≠ weak.target := by
  rw [yieldsTo, Bool.and_eq_true, bne_iff_ne]

/-- A definition stays if it yields to none of the symbols. -/
theorem settleFrom_of_not_yieldsTo (defined : record.isDefinition = true)
    (kinds : ∀ symbol ∈ symbols, record.target.kind = symbol.target.kind)
    (stays : ∀ symbol ∈ symbols, ¬ record.yieldsTo symbol = true) :
    settleFrom (some record) symbols = .ok (some record) := by
  refine settleFrom_of_keep fun symbol member => ?_
  refine merge_eq_keep defined (kinds symbol member) fun strong => ?_
  by_contra other
  exact stays symbol member (Symbol.yieldsTo_iff.2 ⟨strong, other⟩)

/-- A weak definition yields to a strong one. -/
theorem Symbol.merge_of_yieldsTo {weak symbol : Symbol} (isWeak : weak.isWeakDefinition = true)
    (kinds : weak.target.kind = symbol.target.kind) (yields : weak.yieldsTo symbol = true) :
    weak.merge symbol = .ok .replace := by
  obtain ⟨defined, flag⟩ := Bool.and_eq_true_iff.1 isWeak
  obtain ⟨isStrong, apart⟩ := yieldsTo_iff.1 yields
  obtain ⟨defined', flag'⟩ := Bool.and_eq_true_iff.1 isStrong
  refine merge_eq_replace_iff.2 ⟨kinds, ?_, .inr ⟨?_, ?_, ?_, flag⟩⟩
  · simpa [isDefinition] using defined'
  · simpa [isDefinition] using defined
  · simpa using flag'
  · exact Ne.symm apart

/-- The symbols in another order: a weak definition first, then all that it does not yield to. -/
theorem perm_of_yieldsTo {weak : Symbol} (first : weak ∈ symbols) :
    (weak :: ((symbols.erase weak).filter (!weak.yieldsTo ·) ++
      (symbols.erase weak).filter weak.yieldsTo)).Perm symbols := by
  have parts := (List.perm_append_comm.trans
    (List.filter_append_perm weak.yieldsTo (symbols.erase weak))).cons weak
  exact parts.trans (List.perm_cons_erase first).symm

/-- A weak definition that comes first, before its twins, hides them all. After them one strong
definition of another target is accepted. -/
theorem exists_accepted_of_twins {weak strong : Symbol} (first : weak ∈ symbols)
    (second : strong ∈ symbols) (twins : Twins weak strong)
    (reconcilable : ¬ Irreconcilable symbols) :
    ∃ order record, order.Perm symbols ∧ settleFrom none order = .ok (some record) ∧
      ((∀ symbol ∈ symbols, symbol.isStrongDefinition = true → symbol.target = strong.target) →
        record = weak) := by
  obtain ⟨isWeak, isStrong, target⟩ := twins
  have kinds (one two : Symbol) (here : one ∈ symbols) (there : two ∈ symbols) :
      one.target.kind = two.target.kind := by
    by_contra kinds
    exact reconcilable (.inl ⟨one, here, two, there, kinds⟩)
  have within (symbol : Symbol) (member : symbol ∈ symbols.erase weak) : symbol ∈ symbols :=
    List.mem_of_mem_erase member
  have hidden : settleFrom (some weak) ((symbols.erase weak).filter (!weak.yieldsTo ·)) =
      .ok (some weak) := by
    refine settleFrom_of_not_yieldsTo (Bool.and_eq_true_iff.1 isWeak).1 ?_ ?_
    · intro symbol member
      exact kinds weak symbol first (within symbol (List.mem_filter.1 member).1)
    · intro symbol member
      simpa using (List.mem_filter.1 member).2
  have run : settleFrom none (weak :: ((symbols.erase weak).filter (!weak.yieldsTo ·) ++
      (symbols.erase weak).filter weak.yieldsTo)) =
        settleFrom (some weak) ((symbols.erase weak).filter weak.yieldsTo) := by
    rw [settleFrom_cons]
    show settleFrom (some weak) _ = _
    rw [settleFrom_append, hidden]
    rfl
  rcases others : (symbols.erase weak).filter weak.yieldsTo with _ | ⟨other, more⟩
  · exact ⟨_, weak, perm_of_yieldsTo first, by rw [run, others]; rfl, fun _ => rfl⟩
  · have listed (symbol : Symbol) (member : symbol ∈ other :: more) :
        symbol ∈ symbols ∧ weak.yieldsTo symbol = true := by
      rw [← others] at member
      exact (List.mem_filter.1 member).imp_left (within symbol)
    obtain ⟨among, yields⟩ := listed other List.mem_cons_self
    obtain ⟨isStrong', apart⟩ := Symbol.yieldsTo_iff.1 yields
    have stays : settleFrom (some other) more = .ok (some other) := by
      refine settleFrom_of_not_yieldsTo (Bool.and_eq_true_iff.1 isStrong').1 ?_ ?_
      · intro symbol member
        exact kinds other symbol among (listed symbol (List.mem_cons_of_mem _ member)).1
      · intro symbol member yields'
        -- A third target would be one too many.
        obtain ⟨among', yields''⟩ := listed symbol (List.mem_cons_of_mem _ member)
        obtain ⟨isStrong'', apart'⟩ := Symbol.yieldsTo_iff.1 yields''
        refine reconcilable (.inr ⟨strong, second, other, among, symbol, among',
          ⟨isStrong, isStrong', isStrong''⟩, ?_, ?_, Ne.symm (Symbol.yieldsTo_iff.1 yields').2⟩)
        · rw [← target]
          exact Ne.symm apart
        · rw [← target]
          exact Ne.symm apart'
    refine ⟨_, other, perm_of_yieldsTo first, ?_, fun all => ?_⟩
    · rw [run, others, settleFrom_cons, Symbol.settle_some,
        Symbol.merge_of_yieldsTo isWeak (kinds weak other first among) yields]
      exact stays
    · exact absurd ((all other among isStrong').trans target.symm) apart

/-! ## The symbol table -/

/-- The error says that a symbol does not go with those before it. -/
def Error.isClash : Error → Bool
  | .kindMismatch _ _ _ _ _ | .symbolConflict _ _ _ => true
  | _ => false

theorem Symbol.isClash_of_settle {standing : Option Symbol} {error : Error}
    (h : settle standing symbol = .error error) : error.isClash = true := by
  rcases standing with _ | record
  · cases h
  · rcases merge_eq_error_iff.1 (settle_eq_error_iff.1 h) with ⟨-, rfl⟩ | ⟨-, -, -, -, rfl⟩
    · rfl
    · rfl

namespace SymbolTable

/-- When the symbols are added to an empty table, one of them is refused for what came before. -/
def Clashes (symbols : List Symbol) : Prop :=
  ∃ earlier symbol later error, symbols = earlier ++ symbol :: later ∧
    (addAll earlier).add symbol = .error error ∧ error.isClash = true

theorem not_clashes_nil : ¬ Clashes [] := by
  rintro ⟨earlier, symbol, later, error, split, -⟩
  cases earlier <;> cases split

/-- Some symbol clashes, or it is the last one. -/
theorem clashes_concat :
    Clashes (symbols ++ [symbol]) ↔ Clashes symbols ∨
      ∃ error, Symbol.settle ((addAll symbols).record? symbol.name) symbol = .error error := by
  have refused {earlier : List Symbol} {symbol : Symbol} {error : Error} :
      (addAll earlier).add symbol = .error error ↔
        Symbol.settle ((addAll earlier).record? symbol.name) symbol = .error error :=
    add_eq_error_iff (wellFormed_addAll earlier)
  constructor
  · rintro ⟨earlier, other, later, error, split, refuses, clash⟩
    rcases List.eq_nil_or_concat later with rfl | ⟨between, last, rfl⟩
    · obtain ⟨rfl, same⟩ := List.append_inj' split rfl
      cases same
      exact .inr ⟨error, refused.1 refuses⟩
    · rw [List.concat_eq_append, ← List.cons_append, ← List.append_assoc] at split
      obtain ⟨rfl, -⟩ := List.append_inj' split rfl
      exact .inl ⟨earlier, other, between, error, rfl, refuses, clash⟩
  · rintro (⟨earlier, other, later, error, rfl, refuses, clash⟩ | ⟨error, settled⟩)
    · exact ⟨earlier, other, later ++ [symbol], error, by simp, refuses, clash⟩
    · exact ⟨symbols, symbol, [], error, rfl, refused.2 settled, Symbol.isClash_of_settle settled⟩

/-- The table after symbols of one name, in terms of the record of this name. -/
theorem settleFrom_addAll (named : ∀ symbol ∈ symbols, symbol.name = name) :
    (∀ standing, settleFrom none symbols = .ok standing →
      ¬ Clashes symbols ∧ (addAll symbols).record? name = standing) ∧
    ∀ error, settleFrom none symbols = .error error → Clashes symbols := by
  induction symbols using List.reverseRecOn with
  | nil =>
    refine ⟨fun standing h => ?_, fun error h => by cases h⟩
    cases h
    exact ⟨not_clashes_nil, rfl⟩
  | append_singleton symbols symbol ih =>
    obtain ⟨accepts, refuses⟩ := ih fun other member => named other (List.mem_append_left _ member)
    obtain rfl := named symbol (List.mem_append_right _ (List.mem_singleton_self symbol))
    constructor
    · intro standing h
      obtain ⟨middle, record, before, settled, rfl⟩ := settleFrom_concat_eq_ok h
      obtain ⟨accepted, stands⟩ := accepts middle before
      constructor
      · rw [clashes_concat]
        rintro (clashes | ⟨error, refused⟩)
        · exact accepted clashes
        · rw [stands, settled] at refused
          cases refused
      · have settles := add_settles (wellFormed_addAll symbols) symbol
        rcases outcome : (addAll symbols).add symbol with error | ⟨id, next⟩
        · rw [add_eq_error_iff (wellFormed_addAll symbols), stands, settled] at outcome
          cases outcome
        · rw [outcome] at settles
          obtain ⟨record', settled', records⟩ := settles
          rw [stands, settled] at settled'
          cases settled'
          rw [addAll_append, after_of_add_eq_ok outcome, records, if_pos rfl]
    · intro error h
      rw [clashes_concat]
      rw [settleFrom_concat] at h
      rcases before : settleFrom none symbols with cause | middle
      · exact .inl (refuses cause before)
      · rw [before] at h
        rcases settled : Symbol.settle middle symbol with cause | record
        · rw [(accepts middle before).2]
          exact .inr ⟨cause, settled⟩
        · rw [show Except.ok middle >>= _ = some <$> Symbol.settle middle symbol from rfl,
            settled] at h
          cases h

theorem clashes_iff (named : ∀ symbol ∈ symbols, symbol.name = name) :
    Clashes symbols ↔ ∃ error, settleFrom none symbols = .error error := by
  obtain ⟨accepts, refuses⟩ := settleFrom_addAll named
  constructor
  · intro clashes
    rcases h : settleFrom none symbols with error | standing
    · exact ⟨error, rfl⟩
    · exact absurd clashes (accepts standing h).1
  · rintro ⟨error, h⟩
    exact refuses error h

/-- Two orders of the symbols called `name` come to the same: symbols clash in both or in neither,
and then the records are both references or both definitions, both weak or neither, and both of a
strong definition if there is one. -/
structure SameOutcome (name : String) (first second : List Symbol) : Prop where
  clashes : Clashes first ↔ Clashes second
  isUndefined : ¬ Clashes first → ((addAll first).record? name).map (·.isUndefined) =
    ((addAll second).record? name).map (·.isUndefined)
  isWeak : ¬ Clashes first → ((addAll first).record? name).map (·.isWeak) =
    ((addAll second).record? name).map (·.isWeak)
  target : ¬ Clashes first → ∀ strong ∈ first, strong.isStrongDefinition = true →
    ((addAll first).record? name).map (·.target) = some strong.target ∧
      ((addAll second).record? name).map (·.target) = some strong.target

/-- Without twins, two orders of some symbols come to the same. -/
theorem sameOutcome_of_perm (named : ∀ symbol ∈ first, symbol.name = name)
    (perm : first.Perm second) (untwinned : Untwinned first) : SameOutcome name first second := by
  have named' : ∀ symbol ∈ second, symbol.name = name :=
    fun symbol member => named symbol (perm.mem_iff.2 member)
  have untwinned' : Untwinned second := fun weak one strong two =>
    untwinned weak (perm.mem_iff.2 one) strong (perm.mem_iff.2 two)
  have clashes : Clashes first ↔ Clashes second := by
    rw [clashes_iff named, clashes_iff named', exists_error_iff_of_untwinned untwinned,
      exists_error_iff_of_untwinned untwinned']
    simp only [perm.mem_iff]
  -- Where nothing clashes there is a record in both orders, unless there are no symbols.
  have records (accepted : ¬ Clashes first) : first = [] ∧ second = [] ∨
      ∃ one two, (addAll first).record? name = some one ∧ (addAll second).record? name = some two ∧
        Stands first one ∧ Stands second two := by
    rcases here : settleFrom none first with error | standing
    · exact absurd ((clashes_iff named).2 ⟨error, here⟩) accepted
    rcases there : settleFrom none second with error | standing'
    · exact absurd (clashes.2 ((clashes_iff named').2 ⟨error, there⟩)) accepted
    have one := ((settleFrom_addAll named).1 standing here).2
    have two := ((settleFrom_addAll named').1 standing' there).2
    rcases standing with _ | record
    · obtain rfl := settleFrom_none_eq_ok_none here
      exact .inl ⟨rfl, perm.nil_eq.symm⟩
    rcases standing' with _ | record'
    · obtain rfl := settleFrom_none_eq_ok_none there
      exact .inl ⟨perm.eq_nil, rfl⟩
    exact .inr ⟨record, record', one, two, stands_of_settleFrom untwinned here,
      stands_of_settleFrom untwinned' there⟩
  refine ⟨clashes, fun accepted => ?_, fun accepted => ?_, fun accepted strong member isStrong => ?_⟩
  · rcases records accepted with ⟨rfl, rfl⟩ | ⟨one, two, here, there, stands, stands'⟩
    · rfl
    · rw [here, there, Option.map_some, Option.map_some, stands.isUndefined, stands'.isUndefined,
        perm.all_eq]
  · rcases records accepted with ⟨rfl, rfl⟩ | ⟨one, two, here, there, stands, stands'⟩
    · rfl
    · rw [here, there, Option.map_some, Option.map_some, stands.isWeak, stands'.isWeak,
        perm.any_eq, perm.any_eq, perm.all_eq]
  · rcases records accepted with ⟨rfl, rfl⟩ | ⟨one, two, here, there, stands, stands'⟩
    · cases member
    · rw [here, there, Option.map_some, Option.map_some, stands.strong strong member isStrong,
        stands'.strong strong (perm.mem_iff.1 member) isStrong]
      exact ⟨rfl, rfl⟩

/-- The order of the symbols of one name does not matter, exactly if no weak definition has the
target of a strong one, or else if no order of the symbols is accepted. -/
theorem sameOutcome_iff (named : ∀ symbol ∈ symbols, symbol.name = name) :
    (∀ first second, first.Perm symbols → second.Perm symbols → SameOutcome name first second) ↔
      Untwinned symbols ∨ Irreconcilable symbols := by
  have named' {order : List Symbol} (perm : order.Perm symbols) :
      ∀ symbol ∈ order, symbol.name = name :=
    fun symbol member => named symbol (perm.mem_iff.1 member)
  constructor
  · intro same
    by_contra neither
    obtain ⟨twinned, reconcilable⟩ := not_or.1 neither
    simp only [Untwinned, not_forall, Classical.not_not] at twinned
    obtain ⟨weak, first, strong, second, twins⟩ := twinned
    obtain ⟨order, record, perm, accepted, hides⟩ :=
      exists_accepted_of_twins first second twins reconcilable
    have front : (strong :: symbols.erase strong).Perm symbols := (List.perm_cons_erase second).symm
    -- The strong twin comes first here, and hides nothing.
    have outcome := same order (strong :: symbols.erase strong) perm front
    obtain ⟨calm, stands⟩ := (settleFrom_addAll (named' perm)).1 _ accepted
    rcases run : settleFrom none (strong :: symbols.erase strong) with error | standing
    · exact calm (outcome.clashes.2 ((clashes_iff (named' front)).2 ⟨error, run⟩))
    obtain ⟨-, stands'⟩ := (settleFrom_addAll (named' front)).1 _ run
    obtain ⟨rfl, all⟩ := settleFrom_strong twins.2.1 run
    have all' : ∀ symbol ∈ symbols, symbol.isStrongDefinition = true →
        symbol.target = strong.target := by
      intro symbol member isStrong
      rcases List.mem_cons.1 (front.mem_iff.2 member) with rfl | member
      · rfl
      · exact all symbol member isStrong
    obtain rfl := hides all'
    have weakness := outcome.isWeak calm
    rw [stands, stands', Option.map_some, Option.map_some, Option.some.injEq,
      (Bool.and_eq_true_iff.1 twins.1).2] at weakness
    have strong := twins.2.1
    rw [Symbol.isStrongDefinition, ← weakness] at strong
    simp at strong
  · rintro (untwinned | irreconcilable) first second perm perm'
    · refine sameOutcome_of_perm (named' perm) (perm.trans perm'.symm) ?_
      exact fun weak one strong two => untwinned weak (perm.mem_iff.1 one) strong (perm.mem_iff.1 two)
    · have clashes {order : List Symbol} (perm : order.Perm symbols) : Clashes order := by
        refine (clashes_iff (named' perm)).2 (exists_error_of_irreconcilable ?_)
        unfold Irreconcilable at irreconcilable ⊢
        simpa only [perm.mem_iff] using irreconcilable
      have one := clashes perm
      exact ⟨⟨fun _ => clashes perm', fun _ => one⟩, fun accepted => absurd one accepted,
        fun accepted => absurd one accepted, fun accepted => absurd one accepted⟩

/-- The symbols of `contested` come to the same in reverse. -/
theorem sameOutcome_contested :
    Untwinned contested ∧ SameOutcome "f" contested contested.reverse := by
  have named : ∀ symbol ∈ contested, symbol.name = "f" := by decide
  have untwinned : Untwinned contested := by decide
  exact ⟨untwinned, (sameOutcome_iff named).2 (.inl untwinned) contested contested.reverse (.refl _)
    (List.reverse_perm contested)⟩

/-- A function that is defined weakly and strongly at once, and another strong definition. -/
def twinned : List Symbol :=
  [⟨"f", .weak, "a.o", .function (.defined 0 0)⟩, ⟨"f", .empty, "a.o", .function (.defined 0 0)⟩,
    ⟨"f", .empty, "b.o", .function (.defined 1 0)⟩]

/-- The same symbols, with the strong one of the twins first. -/
def untangled : List Symbol :=
  [⟨"f", .empty, "a.o", .function (.defined 0 0)⟩, ⟨"f", .weak, "a.o", .function (.defined 0 0)⟩,
    ⟨"f", .empty, "b.o", .function (.defined 1 0)⟩]

/-- The two strong definitions clash in one order of the symbols and not in the other. -/
theorem clashes_untangled :
    untangled.Perm twinned ∧ Clashes untangled ∧ ¬ Clashes twinned ∧
      (addAll twinned).record? "f" = some ⟨"f", .empty, "b.o", .function (.defined 1 0)⟩ := by
  have refused : settleFrom none untangled = .error (.symbolConflict "f" "a.o" "b.o") := by
    decide +kernel
  have accepted : settleFrom none twinned =
      .ok (some ⟨"f", .empty, "b.o", .function (.defined 1 0)⟩) := by decide +kernel
  have named : ∀ symbol ∈ twinned, symbol.name = "f" := by decide
  have named' : ∀ symbol ∈ untangled, symbol.name = "f" := by decide
  obtain ⟨calm, stands⟩ := (settleFrom_addAll named).1 _ accepted
  exact ⟨.swap _ _ _, (settleFrom_addAll named').2 _ refused, calm, stands⟩

end SymbolTable

end StaticLink
