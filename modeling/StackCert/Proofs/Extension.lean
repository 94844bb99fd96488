import StackCert.Proofs.CertifiedCells

/-!
# More sources, more constants, wider bounds

Certified code names its callees, its constants and its cells by number, and each
number was tested against what its program and its bounds have. More sources and
constants behind the present ones, or more rows and columns, leave everything
where it was. A derivation of `Program.Balanced` is therefore one of the extended
program as well, with the same peak, and a sustained machine can be given the
extended program in the middle of a run. Nothing is asked of the added sources,
since no certified code comes to them.
-/

namespace StackCert

namespace Bounds

/-- Bounds with at least the columns of the given ones, and in each at least its rows. -/
structure Widens (wider bounds : Bounds) : Prop where
  columns : bounds.rows.length ≤ wider.rows.length
  rows : ∀ column few many : Nat, bounds.rows[column]? = some few →
    wider.rows[column]? = some many → few ≤ many

variable {bounds wider : Bounds}

theorem Widens.trans {widest : Bounds} (outer : widest.Widens wider)
    (inner : wider.Widens bounds) : widest.Widens bounds := by
  refine ⟨Nat.le_trans inner.columns outer.columns, ?_⟩
  intro column few many fewFound manyFound
  have inside := (List.getElem?_eq_some_iff.mp fewFound).1
  have between := List.getElem?_eq_getElem (Nat.lt_of_lt_of_le inside inner.columns)
  apply Nat.le_trans (inner.rows column few _ fewFound between)
  exact outer.rows column _ many between manyFound

theorem Widens.contains (widens : wider.Widens bounds) {column row : Nat}
    (contained : bounds.contains column row = true) : wider.contains column row = true := by
  unfold Bounds.contains at contained
  split at contained
  · simp at contained
  · rename_i few fewFound
    have inside := (List.getElem?_eq_some_iff.mp fewFound).1
    have manyFound := List.getElem?_eq_getElem (Nat.lt_of_lt_of_le inside widens.columns)
    have more := widens.rows column few _ fewFound manyFound
    simp only [Bounds.contains, manyFound, decide_eq_true_eq] at contained ⊢
    exact Nat.lt_of_lt_of_le contained more

/-- A context satisfies bounds exactly if its own bounds widen them. -/
theorem satisfiedBy_iff_widens {context : Context} :
    bounds.satisfiedBy context = true ↔ context.bounds.Widens bounds := by
  simp only [satisfiedBy, Bool.and_eq_true, decide_eq_true_eq, List.all_eq_true]
  constructor
  · rintro ⟨columns, rows⟩
    refine ⟨by simpa [Context.bounds] using columns, ?_⟩
    intro column few many fewFound manyFound
    simp only [Context.bounds, List.getElem?_map, Option.map_eq_some_iff] at manyFound
    rcases manyFound with ⟨words, wordsFound, rfl⟩
    refine rows (few, words) (List.mem_of_getElem? (i := column) ?_)
    exact List.getElem?_zip_eq_some.mpr ⟨fewFound, wordsFound⟩
  · intro widens
    refine ⟨by simpa [Context.bounds] using widens.columns, ?_⟩
    rintro ⟨few, words⟩ member
    rcases List.mem_iff_getElem?.mp member with ⟨column, found⟩
    rcases List.getElem?_zip_eq_some.mp found with ⟨fewFound, wordsFound⟩
    apply widens.rows column few words.length fewFound
    simp [Context.bounds, wordsFound]

theorem Widens.satisfiedBy (widens : wider.Widens bounds) {context : Context}
    (satisfied : wider.satisfiedBy context = true) : bounds.satisfiedBy context = true := by
  rw [satisfiedBy_iff_widens] at satisfied ⊢
  exact satisfied.trans widens

end Bounds

namespace Program

/-- The program with more sources and more constants behind its own. -/
def extend (program : Program) (sources : Array Code) (constants : Array Word) : Program :=
  ⟨program.sources ++ sources, program.constants ++ constants⟩

/-- Every source and every constant of a program stands in another one under its number. -/
structure Includes (extended program : Program) : Prop where
  sources : ∀ {source : Nat} {code : Code}, program.sources[source]? = some code →
    extended.sources[source]? = some code
  constants : ∀ {index : Nat} {word : Word}, program.constants[index]? = some word →
    extended.constants[index]? = some word

theorem includes_extend (program : Program) (sources : Array Code) (constants : Array Word) :
    (program.extend sources constants).Includes program := by
  constructor
  · intro source code found
    have inside := (Array.getElem?_eq_some_iff.mp found).1
    rw [extend, Array.getElem?_append_left inside]
    exact found
  · intro index word found
    have inside := (Array.getElem?_eq_some_iff.mp found).1
    rw [extend, Array.getElem?_append_left inside]
    exact found

namespace Includes

variable {extended program : Program} {bounds wider : Bounds}
  {source position height outputs peak : Nat}

theorem source_lt (includes : extended.Includes program) (present : source < program.sources.size) :
    source < extended.sources.size := by
  have found := includes.sources (Array.getElem?_eq_getElem present)
  exact (Array.getElem?_eq_some_iff.mp found).1

theorem holds (includes : extended.Includes program) {instruction : Instruction}
    (held : program.Holds source position instruction) :
    extended.Holds source position instruction := by
  rcases held with ⟨code, found, held⟩
  exact ⟨code, includes.sources found, held⟩

theorem endsAt (includes : extended.Includes program) (ended : program.EndsAt source position) :
    extended.EndsAt source position := by
  rcases ended with ⟨code, found, atEnd⟩
  exact ⟨code, includes.sources found, atEnd⟩

theorem admitsOperand (includes : extended.Includes program) (widens : wider.Widens bounds)
    {operation : Operation} {operand : UInt8}
    (admitted : program.admitsOperand bounds height operation operand = true) :
    extended.admitsOperand wider height operation operand = true := by
  cases operation with
  | constant =>
      simp only [Program.admitsOperand, decide_eq_true_eq] at admitted ⊢
      have found := includes.constants (Array.getElem?_eq_getElem admitted)
      exact (Array.getElem?_eq_some_iff.mp found).1
  | context => exact widens.contains admitted
  | _ => exact admitted

/-- Balanced code stays balanced in an extended program, with the same peak. -/
theorem balanced (includes : extended.Includes program) (widens : wider.Widens bounds)
    (isBalanced : program.Balanced bounds source position height outputs peak) :
    extended.Balanced wider source position height outputs peak := by
  induction isBalanced with
  | finish ended => exact .finish (includes.endsAt ended)
  | run held assigned plain described enough admitted rest ih =>
      apply Balanced.run (includes.holds held) assigned plain described enough _ ih
      exact includes.admitsOperand widens admitted
  | call held assigned named enough later callee rest ihCallee ihRest =>
      exact .call (includes.holds held) assigned named enough later ihCallee ihRest

end Includes

end Program

/-- Another program, as a disguise. -/
def Disguise.running (program : Program) : Disguise where
  machine machine := { machine with program }
  stack := id
  withStack _ _ := rfl
  exit _ _ := rfl
  status _ := rfl
  framed _ framed := framed
  pop := plain.pop
  push := plain.push

namespace Machine

variable {machine : Machine} {extended : Program} {bounds : Bounds}

theorem perform_running (includes : extended.Includes machine.program) {frame : Frame}
    {instruction : Instruction} {operation : Operation} {effect : Effect}
    (passes : machine.program.Passes bounds frame.source frame.position
      (machine.stack.size - frame.base) instruction operation effect) :
    { machine with program := extended }.perform frame operation instruction.operand =
      machine.perform frame operation instruction.operand := by
  cases operation with
  | constant =>
      have inside : instruction.operand.toNat < machine.program.constants.size :=
        of_decide_eq_true passes.admitted
      have found := Array.getElem?_eq_getElem inside
      simp only [perform, Program.constant, found, includes.constants found]
  | call =>
      -- Both numbers of sources are above that of the callee.
      rcases passes.ordered rfl with ⟨later, present⟩
      simp only [perform, enter, later, present, includes.source_lt present, and_self, ↓reduceIte]
  | _ => rfl

theorem follow_running (frame : Frame) (callers : List Frame) (instruction : Instruction)
    (control : Control) :
    { machine with program := extended }.follow frame callers instruction control =
      ((machine.follow frame callers instruction control).1,
        { (machine.follow frame callers instruction control).2 with program := extended }) := by
  cases control <;> rfl

theorem leave_running (frame : Frame) (callers : List Frame) :
    { machine with program := extended }.leave frame callers =
      ((machine.leave frame callers).1,
        { (machine.leave frame callers).2 with program := extended }) := by
  unfold leave
  split
  · cases callers <;> rfl
  · rfl

/-- A sustained machine steps in the same way if its program is extended. -/
theorem fits_running {total : Nat} (spared : Exit → Prop)
    (includes : extended.Includes machine.program) (sustained : machine.Sustained bounds total)
    (running : machine.status = none) (framed : machine.frames ≠ []) :
    (Disguise.running extended).Fits spared machine := by
  rcases List.exists_cons_of_ne_nil framed with ⟨frame, callers, frames⟩
  rcases sustained.endsAt_or_passes frames with ended | ⟨instruction, operation, effect, passes⟩
  · exact Disguise.fits_of_endsAt spared running frames ended frames (includes.endsAt ended)
      (leave_running frame callers)
  · have fetches := fetches_of_passes frames passes
    have fetchesOver :
        { machine with program := extended }.Fetches frame callers instruction operation effect :=
      ⟨frames, includes.holds passes.held, passes.assigned, passes.described, passes.enough⟩
    apply Disguise.fits_of_fetches spared running fetches fetchesOver
    have performed := perform_running includes passes
    simp only [Disguise.running, performed, follow_running]

end Machine

/-- The run of a sustained machine is the same if its program is extended. -/
theorem Evaluation.mirrored_running {σ : Type} [Store σ] {evaluation : Evaluation}
    {extended : Program} {bounds : Bounds} {total : Nat} (running : evaluation.Running)
    (includes : extended.Includes evaluation.machine.program)
    (sustained : evaluation.machine.Sustained bounds total) (executor : Executor σ) :
    Mirrored (.running extended)
      (fun left right => left.store = right.store ∧ left.meter = right.meter)
      (evaluation.run Executor.host executor)
      ((evaluation.disguised (.running extended)).run Executor.host executor) := by
  let going (machine : Machine) : Prop :=
    extended.Includes machine.program ∧ machine.Sustained bounds total
  have keeps {machine after : Machine} (held : going machine) (advances : machine.Advances after) :
      going after := by
    refine ⟨?_, held.2.of_advances advances⟩
    rw [advances.program_eq]
    exact held.1
  have fits {machine : Machine} (held : going machine) (status : machine.status = none)
      (framed : machine.frames ≠ []) : (Disguise.running extended).Fits (fun _ => False) machine :=
    Machine.fits_running _ held.1 held.2 status framed
  have mirrors : (Executor.host : Host (Executor σ)).Mirrors Executor.host (.running extended)
      evaluation.space (fun left right => left.store = right.store ∧ left.meter = right.meter)
      fun _ => False := by
    apply Executor.mirrors_of_recordStep
    rintro meter _ instruction rfl
    exact Or.inl ⟨rfl, rfl⟩
  rcases mirrored_run mirrors ⟨rfl, rfl⟩ running going keeps fits ⟨includes, sustained⟩ with
    mirrored | isSpared
  · exact mirrored
  · exact isSpared.elim

namespace Settings

theorem opening?_running (settings : Settings) (expression : Expression) (extended : Program)
    {wider : Bounds} {request : Request}
    (fits : expression.bounds.satisfiedBy request.context = true)
    (fitsOver : wider.satisfiedBy request.context = true) :
    settings.opening? { expression with program := extended, bounds := wider } request =
      (settings.opening? expression request).map
        fun evaluation => evaluation.disguised (.running extended) := by
  simp only [opening?]
  split
  · simp only [fits, fitsOver, ↓reduceIte]
    rfl
  · rfl

/--
What has been certified stays as it is when sources and constants are added behind
those of the program, well-formed or not, and when the bounds are widened. The
heights are the same under every limit. What is deployed has the same heights and
outputs, and every request whose context has the additional cells gets the same
answer and leaves the same store.
-/
theorem extension_changes_nothing {bounds wider : Bounds} (widens : wider.Widens bounds)
    (program : Program) (sources : Array Code) (constants : Array Word) (outputs : List Nat) :
    let extended := program.extend sources constants
    (∀ limit heights,
      (Certifier.check ⟨program, ⟨bounds, limit⟩, []⟩ outputs).1 = .ok heights →
        (Certifier.check ⟨extended, ⟨wider, limit⟩, []⟩ outputs).1 = .ok heights) ∧
      ∀ deploying expression, deploy deploying program bounds outputs = .ok expression →
        let extendedExpression := { expression with program := extended, bounds := wider }
        deploying.deploy extended wider outputs = .ok extendedExpression ∧
          ∀ {σ : Type} [Store σ] (settings : Settings) (request : Request) (stepLimit : UInt64)
            (store : σ) (journal : Journal), wider.satisfiedBy request.context = true →
            let plain := settings.evaluateWithLimit expression request stepLimit store journal
            let other :=
              settings.evaluateWithLimit extendedExpression request stepLimit store journal
            other.1 = plain.1 ∧ other.2.store = plain.2.store := by
  intro extended
  have includes : extended.Includes program := program.includes_extend sources constants
  have carries {limit : Option Nat} {heights : List Nat}
      (accepted : (Certifier.check ⟨program, ⟨bounds, limit⟩, []⟩ outputs).1 = .ok heights) :
      (Certifier.check ⟨extended, ⟨wider, limit⟩, []⟩ outputs).1 = .ok heights :=
    Certifier.check_of_balanced_imp (includes.balanced widens) accepted
  refine ⟨fun limit heights => carries, ?_⟩
  intro deploying expression deployed extendedExpression
  rcases deploy_eq_ok_iff.mp deployed with ⟨heights, accepted, rfl⟩
  constructor
  · apply deploy_eq_ok_iff.mpr
    exact ⟨heights, carries accepted, rfl⟩
  · intro σ _ settings request stepLimit store journal fitsOver
    have openedOver := opening?_running settings ⟨program, bounds, outputs, heights⟩ extended
      (widens.satisfiedBy fitsOver) fitsOver
    apply evaluateWithLimit_of_mirrored (fun stack => rfl) openedOver
    intro evaluation opened
    rcases sustained_of_opening? deployed opened with ⟨_, total, sustained⟩
    have runs : evaluation.machine.program = program := by
      rcases opening?_eq_some_iff.mp opened with ⟨_, _, _, _, _, rfl⟩
      rfl
    exact Evaluation.mirrored_running (running_of_opening? opened) (runs ▸ includes) sustained _

/--
A callee reads a cell and its caller writes the word under a constant. A source of
odd length is added, with a constant, a row and a column.
-/
theorem extension_changes_nothing_called :
    let program : Program := ⟨#[#[0x00, 0, 0x03, 0x11, 0x31, 0, 0x02, 0], #[0x02, 1]], #[7]⟩
    let bounds : Bounds := ⟨[2]⟩
    let wider : Bounds := ⟨[3, 1]⟩
    let extended := program.extend #[#[0xff]] #[8]
    let request : Request := ⟨0, ⟨[[5, 6, 8], [9]]⟩, 3⟩
    let other := standard.evaluateWithLimit ⟨extended, wider, [1], [2]⟩ request 9 ({} : SparseStore)
    wider.Widens bounds ∧ standard.deploy program bounds [1] = .ok ⟨program, bounds, [1], [2]⟩ ∧
      standard.deploy extended wider [1] = .ok ⟨extended, wider, [1], [2]⟩ ∧
      wider.satisfiedBy request.context = true ∧
      other.1 = .ok [5] ∧ other.2.store = ({} : SparseStore).put ⟨3, 7⟩ 6 := by
  intro program bounds wider extended request other
  have widens : wider.Widens bounds := by
    refine ⟨by decide, ?_⟩
    intro column few many fewFound manyFound
    match column with
    | 0 =>
        cases fewFound
        cases manyFound
        decide
  have deployed : standard.deploy program bounds [1] = .ok ⟨program, bounds, [1], [2]⟩ := by
    decide +kernel
  have fitsOver : wider.satisfiedBy request.context = true := rfl
  have returned :
      let plain := standard.evaluateWithLimit ⟨program, bounds, [1], [2]⟩ request 9
        ({} : SparseStore)
      plain.1 = .ok [5] ∧ plain.2.store = ({} : SparseStore).put ⟨3, 7⟩ 6 :=
    evaluateWithLimit_of_runFor 7 rfl (by decide +kernel)
  rcases (extension_changes_nothing widens program #[#[0xff]] #[8] [1]).2 standard _ deployed with
    ⟨deployedOver, answers⟩
  rcases answers standard request 9 ({} : SparseStore) {} fitsOver with ⟨sameResult, sameStore⟩
  exact ⟨widens, deployed, deployedOver, fitsOver, sameResult.trans returned.1,
    sameStore.trans returned.2⟩

end Settings

end StackCert
