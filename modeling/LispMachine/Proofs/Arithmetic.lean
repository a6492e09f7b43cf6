/-
Arithmetic on integers.

An evaluation from left to right has a result after each argument. As long as all of them fit in 32 bits a sum, a product or a
difference is kept as an integer, and the 64 bits in which two integers are put together are wide enough for whatever they come
to. The first result that does not fit is a double, and what a double is put together with becomes a double (`lift_float`). So
what a call ends with tells whether all results have fit, and if it is an integer, it is exact (`Machine.arithmetic_exact`).
-/
import LispMachine.Proofs.Arguments

namespace LispMachine

namespace Number

/-! ## Integers of 32 bits -/

/-- an integer that 32 bits can hold -/
def InRange (v : Int) : Prop := -2 ^ 31 ≤ v ∧ v < 2 ^ 31

instance (v : Int) : Decidable (InRange v) := inferInstanceAs (Decidable (_ ∧ _))

theorem inRange_toInt (n : Int32) : InRange n.toInt := ⟨n.le_toInt, n.toInt_lt⟩

theorem fits_iff {v : Int} : fits v = true ↔ InRange v := by
  simp only [fits, InRange, Bool.and_eq_true, decide_eq_true_eq]
  omega

/-- an integer that fits is kept as it is -/
theorem ofInt_of_inRange {v : Int} (hv : InRange v) : ∃ n : Int32, ofInt v = .int n ∧ n.toInt = v :=
  ⟨Int32.ofInt v, if_pos (fits_iff.2 hv), Int32.toInt_ofInt_of_le hv.1 hv.2⟩

theorem ofInt_of_not_inRange {v : Int} (hv : ¬ InRange v) : ∃ x, ofInt v = .float x := ⟨_, if_neg (mt fits_iff.1 hv)⟩

/-! ## Integers of 64 bits -/

/-- what two integers come to does not overflow in 64 bits, and the number for it is what the operations make of them -/
structure Wide (a b : Int32) : Prop where
  add : (a.toInt64 + b.toInt64).toInt = a.toInt + b.toInt ∧
    Number.add (.int a) (.int b) = ofInt (a.toInt64 + b.toInt64).toInt
  sub : (a.toInt64 - b.toInt64).toInt = a.toInt - b.toInt ∧
    Number.sub (.int a) (.int b) = ofInt (a.toInt64 - b.toInt64).toInt
  mul : (a.toInt64 * b.toInt64).toInt = a.toInt * b.toInt ∧
    Number.mul (.int a) (.int b) = ofInt (a.toInt64 * b.toInt64).toInt
  neg : (-a.toInt64).toInt = -a.toInt ∧ Number.neg (.int a) = ofInt (-a.toInt64).toInt

/-- a product of two integers of 32 bits is at most `2 ^ 62` either way -/
theorem abs_mul_le {v w : Int} (hv : InRange v) (hw : InRange w) : |v * w| ≤ 2 ^ 62 := by
  have habs {u : Int} (hu : InRange u) : |u| ≤ 2 ^ 31 := abs_le.2 ⟨hu.1, hu.2.le⟩
  calc |v * w| = |v| * |w| := abs_mul v w
    _ ≤ 2 ^ 31 * 2 ^ 31 := mul_le_mul (habs hv) (habs hw) (abs_nonneg w) (by decide)
    _ = 2 ^ 62 := by norm_num

theorem wide (a b : Int32) : Wide a b := by
  have ha := inRange_toInt a
  have hb := inRange_toInt b
  have hexact {v : Int} (hv : |v| ≤ 2 ^ 62) : v.bmod (2 ^ 64) = v := by
    obtain ⟨hle, hge⟩ := abs_le.1 hv
    exact Int.bmod_eq_of_le (by omega) (by omega)
  have hsmall {v : Int} (hlow : -2 ^ 32 ≤ v) (hhigh : v ≤ 2 ^ 32) : v.bmod (2 ^ 64) = v :=
    hexact (abs_le.2 ⟨by omega, by omega⟩)
  obtain ⟨ha₁, ha₂⟩ := ha
  obtain ⟨hb₁, hb₂⟩ := hb
  have hadd : (a.toInt64 + b.toInt64).toInt = a.toInt + b.toInt := by
    rw [Int64.toInt_add, Int32.toInt_toInt64, Int32.toInt_toInt64, hsmall (by omega) (by omega)]
  have hsub : (a.toInt64 - b.toInt64).toInt = a.toInt - b.toInt := by
    rw [Int64.toInt_sub, Int32.toInt_toInt64, Int32.toInt_toInt64, hsmall (by omega) (by omega)]
  have hmul : (a.toInt64 * b.toInt64).toInt = a.toInt * b.toInt := by
    rw [Int64.toInt_mul, Int32.toInt_toInt64, Int32.toInt_toInt64, hexact (abs_mul_le ⟨ha₁, ha₂⟩ ⟨hb₁, hb₂⟩)]
  have hneg : (-a.toInt64).toInt = -a.toInt := by
    rw [Int64.toInt_neg, Int32.toInt_toInt64, hsmall (by omega) (by omega)]
  exact ⟨⟨hadd, by rw [hadd]; rfl⟩, ⟨hsub, by rw [hsub]; rfl⟩, ⟨hmul, by rw [hmul]; rfl⟩, ⟨hneg, by rw [hneg]; rfl⟩⟩

/-! ## From left to right -/

variable {onInt : Int → Int → Int} {onFloat : Float → Float → Float}

/-- two integers come to the number for the exact result -/
theorem lift_int (a b : Int32) : lift onInt onFloat (.int a) (.int b) = ofInt (onInt a.toInt b.toInt) := rfl

/-- a double stays one, whatever it is put together with -/
theorem lift_float (x : Float) (n : Number) : ∃ y, lift onInt onFloat (.float x) n = .float y := ⟨_, rfl⟩

/-- from a double on there are doubles only -/
theorem foldl_lift_float (x : Float) (ns : List Number) : ∃ y, ns.foldl (lift onInt onFloat) (.float x) = .float y := by
  induction ns generalizing x with
  | nil => exact ⟨x, rfl⟩
  | cons n ns ih =>
    obtain ⟨y, hy⟩ : ∃ y, lift onInt onFloat (.float x) n = .float y := lift_float x n
    rw [List.foldl_cons, hy]
    exact ih y

/-- a number tells whether results have fit in 32 bits: an integer if all have, and then it is `last`, and else a double -/
structure Tells (results : List Int) (last : Int) (n : Number) : Prop where
  int_iff : (∃ k, n = .int k) ↔ ∀ r ∈ results, InRange r
  exact : ∀ k, n = .int k → k.toInt = last

theorem Tells.of_int {results : List Int} {last : Int} {k : Int32} (hfit : ∀ r ∈ results, InRange r) (hk : k.toInt = last) :
    Tells results last (.int k) :=
  ⟨⟨fun _ => hfit, fun _ => ⟨k, rfl⟩⟩, fun _ h => int.inj h ▸ hk⟩

theorem Tells.of_float {results : List Int} {last r : Int} {x : Float} (hr : r ∈ results) (hno : ¬ InRange r) :
    Tells results last (.float x) :=
  ⟨⟨fun ⟨_, h⟩ => (nomatch h), fun hfit => absurd (hfit r hr) hno⟩, fun _ h => (nomatch h)⟩

/-- the number for an exact result tells whether it fits -/
theorem tells_ofInt (v : Int) : Tells [v] v (ofInt v) := by
  by_cases hv : InRange v
  · obtain ⟨n, hn, hvalue⟩ := ofInt_of_inRange hv
    rw [hn]
    exact .of_int (by simpa using hv) hvalue
  · obtain ⟨x, hx⟩ := ofInt_of_not_inRange hv
    rw [hx]
    exact .of_float (List.mem_singleton_self v) hv

/-- an evaluation from left to right tells whether all results on the way have fit -/
theorem foldl_lift_tells (a : Int32) (ns : List Int32) :
    Tells ((ns.map Int32.toInt).scanl onInt a.toInt) ((ns.map Int32.toInt).foldl onInt a.toInt)
      ((ns.map Number.int).foldl (lift onInt onFloat) (.int a)) := by
  induction ns generalizing a with
  | nil => exact .of_int (by simpa using inRange_toInt a) rfl
  | cons n ns ih =>
    simp only [List.map_cons, List.foldl_cons, List.scanl_cons, lift_int]
    by_cases hfit : InRange (onInt a.toInt n.toInt)
    · obtain ⟨b, hb, hvalue⟩ := ofInt_of_inRange hfit
      have hrest := ih b
      rw [hvalue] at hrest
      rw [hb]
      refine ⟨?_, hrest.exact⟩
      rw [hrest.int_iff, List.forall_mem_cons, and_iff_right (inRange_toInt a)]
    · obtain ⟨x, hx⟩ := ofInt_of_not_inRange hfit
      obtain ⟨y, hy⟩ : ∃ y, (ns.map Number.int).foldl (lift onInt onFloat) (.float x) = .float y := foldl_lift_float x _
      have hmem : onInt a.toInt n.toInt ∈ (ns.map Int32.toInt).scanl onInt (onInt a.toInt n.toInt) := by
        cases ns <;> simp
      rw [hx, hy]
      exact .of_float (List.mem_cons_of_mem _ hmem) hfit

end Number

/-! ## Sums, products and differences -/

/-- the operations that take any number of integers and are exact -/
inductive Operation where
  | sum
  | product
  | difference
deriving DecidableEq, Repr

namespace Operation

def name : Operation → String
  | .sum => "+"
  | .product => "*"
  | .difference => "-"

/-- the number of arguments that have to be there -/
def required : Operation → Nat
  | .sum | .product => 0
  | .difference => 1

/-- the results on the way from left to right; a lone number is negated -/
def results : Operation → List Int32 → List Int
  | .sum, ns => (ns.map Int32.toInt).scanl (· + ·) 0
  | .product, ns => (ns.map Int32.toInt).scanl (· * ·) 1
  | .difference, [] => []
  | .difference, [a] => [-a.toInt]
  | .difference, a :: ns => (ns.map Int32.toInt).scanl (· - ·) a.toInt

/-- what the operation comes to on integers without bounds -/
def exact : Operation → List Int32 → Int
  | .sum, ns => (ns.map Int32.toInt).sum
  | .product, ns => (ns.map Int32.toInt).prod
  | .difference, [] => 0
  | .difference, [a] => -a.toInt
  | .difference, a :: ns => a.toInt - (ns.map Int32.toInt).sum

def primitive : Operation → Primitive
  | .sum => .add
  | .product => .multiply
  | .difference => .subtract

/-- a function as it is installed for the operation: it runs the primitive of that name, and there is a parameter for each
argument that has to be there and one for the list of the others -/
structure Installed (op : Operation) (f : Function) : Prop where
  body : ∃ b ∈ builtins, b.name = op.name ∧ f.body = .primitive b.primitive b.special
  required : f.params.required.length = op.required
  optional : f.params.optional = []
  rest : f.params.rest.isSome = true
  keys : f.params.keys = []

/-- what a call of the operation ends with: an integer if all results on the way fit in 32 bits, and then the exact one, and else
a double -/
structure Yields (op : Operation) (ns : List Int32) (v : Value) : Prop where
  int_iff : (∃ k, v = .int k) ↔ ∀ r ∈ op.results ns, Number.InRange r
  exact : ∀ k, v = .int k → k.toInt = op.exact ns
  float_iff : (∃ x, v = .float x) ↔ ∃ r ∈ op.results ns, ¬ Number.InRange r

theorem yields_of_tells {op : Operation} {ns : List Int32} {n : Number} (hn : Number.Tells (op.results ns) (op.exact ns) n) :
    op.Yields ns (.ofNumber n) := by
  obtain ⟨hiff, hexact⟩ := hn
  cases n with
  | int k =>
    have hfit := hiff.1 ⟨k, rfl⟩
    refine ⟨⟨fun _ => hfit, fun _ => ⟨k, rfl⟩⟩, fun _ h => hexact _ (congrArg Number.int (Value.int.inj h)), ?_⟩
    exact ⟨fun ⟨_, h⟩ => (nomatch h), fun ⟨r, hr, hno⟩ => absurd (hfit r hr) hno⟩
  | float x =>
    have hno : ¬ ∀ r ∈ op.results ns, Number.InRange r := fun hfit => nomatch hiff.2 hfit
    refine ⟨⟨fun ⟨_, h⟩ => (nomatch h), fun hfit => absurd hfit hno⟩, fun _ h => (nomatch h), fun _ => ?_, fun _ => ⟨x, rfl⟩⟩
    simpa using hno

theorem Installed.body_eq {op : Operation} {f : Function} (hf : op.Installed f) : f.body = .primitive op.primitive false := by
  have hnamed : ∀ b ∈ builtins, b.name = op.name → b.primitive = op.primitive ∧ b.special = false := by
    cases op <;> decide
  obtain ⟨b, hb, hname, hbody⟩ := hf.body
  obtain ⟨hp, hspecial⟩ := hnamed b hb hname
  rw [hbody, hp, hspecial]

theorem foldl_sub (a : Int) (vs : List Int) : vs.foldl (· - ·) a = a - vs.sum := by
  induction vs generalizing a with
  | nil => simp
  | cons v vs ih => rw [List.foldl_cons, ih, List.sum_cons, sub_sub]

theorem tells_sum (ns : List Int32) :
    Number.Tells (results .sum ns) (exact .sum ns) ((ns.map Number.int).foldl Number.add (.int 0)) := by
  rw [results, exact, List.sum_eq_foldl]
  exact Number.foldl_lift_tells 0 ns

theorem tells_product (ns : List Int32) :
    Number.Tells (results .product ns) (exact .product ns) ((ns.map Number.int).foldl Number.mul (.int 1)) := by
  rw [results, exact, List.prod_eq_foldl]
  exact Number.foldl_lift_tells 1 ns

theorem tells_negated (a : Int32) : Number.Tells (results .difference [a]) (exact .difference [a]) (Number.neg (.int a)) :=
  Number.tells_ofInt _

theorem tells_difference (a b : Int32) (ns : List Int32) : Number.Tells (results .difference (a :: b :: ns))
    (exact .difference (a :: b :: ns)) (((b :: ns).map Number.int).foldl Number.sub (.int a)) := by
  have hlast : exact .difference (a :: b :: ns) = ((b :: ns).map Int32.toInt).foldl (· - ·) a.toInt := (foldl_sub _ _).symm
  rw [hlast]
  exact Number.foldl_lift_tells a (b :: ns)

end Operation

/-! ## Calls -/

namespace Act

variable {α : Type} {th : ThreadId} {n : Nat} {m m' : Machine}

theorem run_numbersOf (ns : List Int32) (found : List Number) :
    (numbersOf th (ns.map Value.int) found).run m = .ok (found.reverse ++ ns.map Number.int) m := by
  induction ns generalizing found with
  | nil => simp [numbersOf]
  | cons n ns ih =>
    have hread : (numberArg th (.int n)).run m = .ok (.int n) m := rfl
    rw [List.map_cons, numbersOf, bind_ok hread, ih]
    simp

/-- the integers of a list are its numbers -/
theorem run_numbers {list : Value} {ns : List Int32} (h : m.Walks list (ns.map .int)) :
    (numbers th list).run m = .ok (ns.map .int) m := by
  have hitems : (listArg th list).run m = .ok (ns.map .int) m := run_withErrorObjects_ok h.run_listItems
  unfold numbers
  rw [bind_ok hitems, run_numbersOf, List.reverse_nil, List.nil_append]

/-- the primitive of an operation makes of its arguments what tells whether the results on the way have fit -/
theorem run_operation (th : ThreadId) (op : Operation) (ev : Evaluator) {ns : List Int32} (hns : op.required ≤ ns.length)
    {list : Value} (hlist : m.Walks list ((ns.map .int).drop op.required)) : ∃ v,
      (runPrimitive ev th ((ns.map .int).take op.required ++ [list]) op.primitive).run m = .ok (.ofNumber v) m ∧
      Number.Tells (op.results ns) (op.exact ns) v := by
  cases op with
  | sum =>
    have hread : (numbers th (arg [list] 0)).run m = .ok (ns.map .int) m := run_numbers hlist
    exact ⟨_, bind_ok hread, Operation.tells_sum ns⟩
  | product =>
    have hread : (numbers th (arg [list] 0)).run m = .ok (ns.map .int) m := run_numbers hlist
    exact ⟨_, bind_ok hread, Operation.tells_product ns⟩
  | difference =>
    obtain _ | ⟨a, ns⟩ := ns
    · cases hns
    have hfirst : (numberArg th (arg [.int a, list] 0)).run m = .ok (.int a) m := rfl
    have hread : (numbers th (arg [.int a, list] 1)).run m = .ok (ns.map .int) m := run_numbers hlist
    obtain _ | ⟨b, ns⟩ := ns
    · exact ⟨_, (bind_ok hfirst).trans (bind_ok hread), Operation.tells_negated a⟩
    · exact ⟨_, (bind_ok hfirst).trans (bind_ok hread), Operation.tells_difference a b ns⟩

/-- dropping values that have been laid goes through -/
theorem ends_dropSlots_laid {vs : List Value} (hm : m.Stacked th n vs m') (hwhole : (m.thread th).stack.beyond = 0) (k : Nat)
    {P : Prop} (hP : P) : (dropSlots th k).Ends m' (fun _ _ => P) fun _ _ => False := by
  have hread : (stackBeyond th).run m' = .ok 0 m' := by
    change EStateM.Result.ok (m'.thread th).stack.beyond m' = _
    rw [hm.stack, Stack.lay, hwhole]
  unfold dropSlots Ends
  rw [bind_ok hread]
  exact hP

end Act

namespace Operation

variable {op : Operation} {f : Function} {ns : List Int32}

/-- the function takes integers, if there are enough -/
theorem Installed.accepts (hf : op.Installed f) (hns : op.required ≤ ns.length) : f.params.Accepts (ns.map .int) where
  count :=
    { enough := by rw [hf.required, List.length_map]; exact hns
      few := fun hnone => absurd hf.rest (by simp [hnone]) }
  keyed hkeys := absurd hf.keys hkeys

/-- the values of the parameters: the integers that have to be there and the list of the others -/
theorem Installed.values (hf : op.Installed f) {m : Machine} {s : Sections} (hs : f.params.Fills (ns.map .int) m s) :
    ∃ list, s.values = (ns.map .int).take op.required ++ [list] ∧ m.Walks list ((ns.map .int).drop op.required) := by
  obtain ⟨rest, hrest⟩ := Option.isSome_iff_exists.1 hf.rest
  have hlists := hs.rest
  have hkeys := hs.keys
  simp only [hrest, Option.toList_some, Params.others, hf.required, hf.optional, List.length_nil, List.drop_zero] at hlists
  rw [hf.keys] at hkeys
  generalize hsections : s.rest = lists at hlists
  generalize hvalues : s.keys = values at hkeys
  obtain _ | ⟨hlist, _ | _⟩ := hlists
  obtain _ | _ := hkeys
  refine ⟨_, ?_, hlist⟩
  rw [Sections.values, hs.required, hs.optional, hsections, hvalues, hf.required, hf.optional]
  simp

end Operation

namespace Machine

variable {th : ThreadId} {m : Machine}

/-- a call of an operation yields what the operation comes to, if there is room -/
theorem ends_call_operation {op : Operation} {f : Function} (hf : op.Installed f) (hm : m.heap.InOrder)
    (hroom : m.HasRoom th f.params.size) (ev : Evaluator) {ns : List Int32} (hns : op.required ≤ ns.length) :
    (Act.call ev th f (ns.map .int)).Ends m (fun v _ => op.Yields ns v) fun e _ =>
      e = .fault .exhausted ∧ m.heap.Lacks (ns.length + 2) := by
  have haccepts := hf.accepts hns
  unfold Act.call
  refine Act.Ends.bind (P := fun base m' => base = (m.thread th).stack.size ∧ m = m') ⟨rfl, rfl⟩ ?_
  rintro _ _ ⟨rfl, rfl⟩
  refine (Act.lays_pushArgs f.isSpecial hm (by simp) (by simp [hf.keys]) hroom).attempting ?_ ?_ ?_
  · rintro _ m' ⟨_, hlaid, -, s, hs, rfl⟩
    obtain ⟨list, hvalues, hlist⟩ := hf.values hs
    obtain ⟨v, hrun, hv⟩ := Act.run_operation th op ev hns hlist
    have hargs := Act.run_frameValues_laid hlaid hroom.whole
    rw [hs.length haccepts, hvalues] at hargs
    have hbody : (Act.runBody ev th f (m.thread th).stack.size).run m' = .ok (.ofNumber v) m' := by
      unfold Act.runBody
      simp only [hf.body_eq]
      rw [Act.bind_ok hargs, Act.bind_ok (Act.run_withErrorObjects_ok hrun)]
      cases v <;> rfl
    refine Act.Ends.andThen (P := fun v' m'' => v' = .ofNumber v ∧ m'' = m') (F := fun _ _ => False) ?_ ?_ ?_
    · unfold Act.Ends
      rw [hbody]
      exact ⟨rfl, rfl⟩
    · rintro _ _ ⟨rfl, rfl⟩
      exact Act.ends_dropSlots_laid hlaid hroom.whole _ (Operation.yields_of_tells hv)
    · exact fun _ _ h => h.elim
  · rintro c m' (⟨o, vs, -, -, hrefused⟩ | ⟨hc, -⟩)
    · exact absurd haccepts hrefused.not_accepts
    · cases hc
  · rintro e m' hraised (⟨o, -, rfl, -⟩ | ⟨rfl, hlacks⟩)
    · exact absurd rfl (hraised _)
    · exact ⟨rfl, by simpa [hf.keys] using hlacks⟩

/-- **Arithmetic on integers is exact.** A call of a sum, a product or a difference on any list of integers of 32 bits ends with
an integer if and only if every result on the way from left to right fits in 32 bits, and then with the exact one; if one does
not fit it ends with a double, whatever comes after it. Nothing else ends it but a heap that is full. The 64 bits in which two
integers are put together, and in which one is negated, are enough for any integers. -/
theorem arithmetic_exact :
    (∀ (m : Machine) (th : ThreadId) (op : Operation) (f : Function) (ev : Evaluator) (ns : List Int32), op.Installed f →
      m.heap.InOrder → m.HasRoom th f.params.size → op.required ≤ ns.length →
      (Act.call ev th f (ns.map .int)).Ends m (fun v _ => op.Yields ns v) fun e _ =>
        e = .fault .exhausted ∧ m.heap.Lacks (ns.length + 2)) ∧
    ∀ a b : Int32, Number.Wide a b :=
  ⟨fun _ _ _ _ ev _ hf hm hroom hns => ends_call_operation hf hm hroom ev hns, Number.wide⟩

/-- the function `-` with its parameters `number` and `others` -/
def subtraction : Function :=
  { name := none, params := { required := [2], rest := some 3 }, body := .primitive .subtract false }

/-- the least integer, negated, does not fit; with one taken away and given back the result is a double though the exact one is
in the range again -/
theorem arithmetic_exact_opened : Operation.difference.Installed subtraction ∧ opened.heap.InOrder ∧
    opened.HasRoom 0 subtraction.params.size ∧
    ∀ ev, ∀ ns ∈ [[-2147483648], [-2147483648, 1, -1]], (Act.call ev 0 subtraction (ns.map .int)).Ends opened
      (fun v _ => ∃ x, v = .float x) fun _ _ => False := by
  have hf : Operation.difference.Installed subtraction :=
    ⟨⟨⟨"-", "(number &rest others)", false, .subtract⟩, by simp [builtins], rfl, rfl⟩, rfl, rfl, rfl, rfl⟩
  have horder : opened.heap.InOrder := settled_opened.idle.heap.order
  have hroom : opened.HasRoom 0 subtraction.params.size := ⟨rfl, rfl, by decide⟩
  refine ⟨hf, horder, hroom, fun ev ns hns => ?_⟩
  have hspare : ¬ opened.heap.Lacks (ns.length + 2) := by
    rintro ⟨limit, -, hlacks⟩
    have hlength : ns.length ≤ 3 := by
      rcases List.mem_pair.1 hns with rfl | rfl <;> decide
    exact absurd (hlacks.trans_le (Nat.add_le_add_right hlength 2)) (by decide)
  have hfar : ∃ r ∈ Operation.difference.results ns, ¬ Number.InRange r := by
    rcases List.mem_pair.1 hns with rfl | rfl
    · exact ⟨2147483648, by decide, by decide⟩
    · exact ⟨-2147483649, by decide, by decide⟩
  refine (arithmetic_exact.1 opened 0 _ subtraction ev ns hf horder hroom ?_).mono ?_ ?_
  · rcases List.mem_pair.1 hns with rfl | rfl <;> decide
  · exact fun v _ hv => hv.float_iff.2 hfar
  · exact fun _ _ h => hspare h.2

end Machine

end LispMachine
