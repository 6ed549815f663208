import OnePass.Proofs.Translate.Table

/-!
# Performing a translation

The steps of a phrase that has a translation are performed, and leave exactly what the translation
says: its code at the end of the store, its value on the stack, its table. -/

namespace OnePass

open Gen
open Planned (plain settle)

/-- A state stands at a position, with a table. -/
structure Generator.At (g : Generator) (l : Layout) (pc : Nat) (t : SymbolTable) : Prop where
  layout : g.layout = l
  pc : g.code.pc = pc
  symbols : g.symbols = t

namespace Generator

/-- The state after the code of an expression. -/
def gives (g : Generator) (is : List Instruction) (v : StackValue) (t : SymbolTable) : Generator :=
  { g with code := g.code.append is, stack := v :: g.stack, symbols := t }

/-- The state after the code of some arguments. -/
def passes (g : Generator) (is : List Instruction) (values : List StackValue) (counts : List Nat)
    (t : SymbolTable) : Generator :=
  { g with code := g.code.append is, stack := values.reverse ++ g.stack, argCounts := counts
           symbols := t }

variable {g : Generator} {l : Layout} {pc : Nat} {t t' : SymbolTable}

theorem At.gives (h : g.At l pc t) (is : List Instruction) (v : StackValue) (t' : SymbolTable) :
    (g.gives is v t').At l (pc + is.length) t' :=
  ⟨h.layout, by rw [← h.pc]; exact Store.pc_append .., rfl⟩

theorem At.withStack (h : g.At l pc t) (stack : List StackValue) : (g.withStack stack).At l pc t :=
  ⟨h.layout, h.pc, h.symbols⟩

end Generator

/-! ### Expressions -/

/-- The state in which the arguments of a call are read. -/
def Generator.calling (g : Generator) (target : Symbol) : Generator :=
  { g with stack := .symbol target :: g.stack, argCounts := 0 :: g.argCounts }

/-- The state after the arguments of a call, when they have come off the stack. -/
def Generator.called (g : Generator) (is : List Instruction) (t : SymbolTable) : Generator :=
  { g with code := g.code.append is, symbols := t }

/-- A call reads its target and its arguments and takes them off the stack. -/
theorem performed_call {g g₀ g₁ g' : Generator} {n : Nat} {x : Name} (opening : Nat) {args : Args}
    {target : Symbol} {is : List Instruction} {values : List StackValue} {ss : List Symbol}
    {t : SymbolTable}
    (hname : Performs ⟨.pushIdentifier, x.token⟩ g (g₀.withStack (.symbol target :: g₀.stack)))
    (hargs : Performed args.steps (g₀.calling target)
      ((g₁.calling target).passes is values ((0 + values.length) :: g₁.argCounts) t))
    (hoperands : values.map (·.operand?) = ss.map some)
    (hdo : Does (callWith x.token target ss) (g₁.called is t) 0 () g' n) :
    Performed (Expr.call x opening args).steps g g' := by
  have hlength : values.length = ss.length := by simpa using congrArg List.length hoperands
  let read := (g₁.calling target).passes is values ((0 + values.length) :: g₁.argCounts) t
  have hcount : read.argCounts = ss.reverse.length :: g₁.argCounts := by
    rw [List.length_reverse, ← hlength, ← Nat.zero_add values.length]
    rfl
  have hstack : read.stack = values.reverse ++ .symbol target :: g₁.stack := rfl
  have hreverse : values.reverse.map (·.operand?) = ss.reverse.map some := by
    rw [List.map_reverse, List.map_reverse, hoperands]
  refine .append (.append (.cons hname (.cons performs_pushArgCount .nil)) hargs) (.cons ?_ .nil)
  refine Does.call hcount hstack hreverse rfl (n := n) ?_
  rw [List.reverse_reverse]
  exact hdo

/-- A call at which all is well prints or enters a function. -/
theorem Calls.performed {g g₁ g' : Generator} {n : Nat} {x : Name} (opening : Nat) {args : Args}
    {target callee : Symbol} {is : List Instruction} {values : List StackValue}
    {ss : List Symbol} {t : SymbolTable} (h : Calls t target values callee ss)
    (hx : g.symbols.find? x.lexeme = some target)
    (hargs : Performed args.steps (g.calling target)
      ((g₁.calling target).passes is values ((0 + values.length) :: g₁.argCounts) t))
    (hdo : Does (if callee.name = outputName then callOutput callee ss else callFunction callee ss)
      (g₁.called is t) 0 () g' n) :
    Performed (Expr.call x opening args).steps g g' := by
  obtain ⟨hcallable, hoperands, rfl, hmatching⟩ := h
  exact performed_call opening (performs_pushIdentifier hx) hargs hoperands
    (Does.callWith hcallable.1 hcallable.2 hmatching hdo)

mutual

/-- The steps of an expression leave its code and its value. -/
theorem Expr.Translates.performed {l : Layout} (hslots : 3 ≤ l.scratchSlots.toNat) {e : Expr}
    {pc : Nat} {t t' : SymbolTable} {is : List Instruction} {v : StackValue} {g : Generator} :
    e.Translates l pc t is v t' → g.At l pc t → Performed e.steps g (g.gives is v t')
  | .num hn, hg => by
    obtain ⟨-, -, rfl⟩ := hg
    exact .cons (performs_pushNumber hn) .nil
  | .name hx, hg => by
    obtain ⟨-, -, rfl⟩ := hg
    exact .cons (performs_pushIdentifier hx) .nil
  | .index hx ha hi hv hf hroom, hg => by
    obtain ⟨rfl, rfl, rfl⟩ := hg
    rename_i x _ _ _ a js v s t₁ f
    let g₁ := g.withStack (.symbol a :: g.stack)
    refine .append (.append (.cons (performs_pushIdentifier hx) .nil)
      (hi.performed hslots (g := g₁) ⟨rfl, rfl, rfl⟩)) (.cons ?_ .nil)
    have hindex := performs_indexArray (t := x.token) (g := g₁.gives js v t₁) rfl rfl hv.1 ha.1
      ha.2.1 ha.2.2 hv.2 hf hroom hslots
    simpa [g₁, Generator.gives, Generator.withStack] using hindex
  | .print hx hargs hcalls hout, hg => by
    obtain ⟨rfl, rfl, rfl⟩ := hg
    rename_i opening _ target is values callee ss
    have hpass := hargs.performed hslots (g := g.calling target) ⟨rfl, rfl, rfl⟩ rfl
    obtain ⟨n, hdo⟩ := does_callOutput (g := g.called is t') (s := callee) hslots
    refine hcalls.performed opening hx hpass (Does.ite_pos hout (hdo.congr ?_))
    simp [Generator.gives, Generator.called]
  | .callVoid hx hargs hcalls hout hty, hg => by
    obtain ⟨rfl, rfl, rfl⟩ := hg
    rename_i opening _ target is values callee ss
    have hpass := hargs.performed hslots (g := g.calling target) ⟨rfl, rfl, rfl⟩ rfl
    obtain ⟨n, hdo⟩ := does_callFunction_void (g := g.called is t') hslots hty
    refine hcalls.performed opening hx hpass (Does.ite_neg hout (hdo.congr ?_))
    simp [Generator.gives, Generator.called]
  | .callValue hx hargs hcalls hout hty hf hroom, hg => by
    obtain ⟨rfl, rfl, rfl⟩ := hg
    rename_i opening _ target is values t₁ callee ss f
    have hpass := hargs.performed hslots (g := g.calling target) ⟨rfl, rfl, rfl⟩ rfl
    obtain ⟨n, hdo⟩ := does_callFunction_value (g := g.called is t₁) hslots hty hf hroom
    refine hcalls.performed opening hx hpass (Does.ite_neg hout (hdo.congr ?_))
    simp [Generator.gives, Generator.called]
  | .paren he, hg => he.performed hslots hg
  | .binary h₁ hv₁ h₂ hv₂ hf hroom, hg => by
    obtain ⟨rfl, rfl, rfl⟩ := hg
    rename_i op line _ _ is v₁ s₁ t₁ js v₂ s₂ t₂ f
    have hop : BinaryOp.ofLexeme? (op.token line).lexeme = some op := by cases op <;> rfl
    let g₁ := g.gives is v₁ t₁
    let g₂ := g₁.withStack (.operator op :: g₁.stack)
    have hg₂ : g₂.At g.layout (g.code.pc + is.length) t₁ :=
      Generator.At.withStack (Generator.At.gives ⟨rfl, rfl, rfl⟩ is v₁ t₁) _
    refine .append (.append (.append (h₁.performed hslots ⟨rfl, rfl, rfl⟩)
      (.cons (performs_pushOperator hop) .nil)) (h₂.performed hslots hg₂)) (.cons ?_ .nil)
    have hcompute := performs_computeBinary (t := op.token line) (g := g₂.gives js v₂ t₂) rfl
      hv₁.1 hv₂.1 hv₁.2 hv₂.2 hf hroom hslots
    simpa [g₁, g₂, Generator.gives, Generator.withStack] using hcompute
  | .assign h₁ hv₁ h₂ hv₂, hg => by
    obtain ⟨rfl, rfl, rfl⟩ := hg
    rename_i line _ _ is v₁ s₁ t₁ js v₂ s₂
    let g₁ := g.gives is v₁ t₁
    have hg₁ : g₁.At g.layout (g.code.pc + is.length) t₁ :=
      Generator.At.gives ⟨rfl, rfl, rfl⟩ is v₁ t₁
    refine .append (.append (h₁.performed hslots ⟨rfl, rfl, rfl⟩) (h₂.performed hslots hg₁))
      (.cons ?_ .nil)
    have hassign := performs_assign (t := .symbolAt "=" line) (g := g₁.gives js v₂ t') rfl
      hv₁.1 hv₂.1 hv₁.2 hv₂.2 hslots
    simpa [g₁, Generator.gives, Generator.withStack] using hassign

/-- The steps of some arguments leave their code, their values and their number. -/
theorem Args.Translates.performed {l : Layout} (hslots : 3 ≤ l.scratchSlots.toNat) {args : Args}
    {pc : Nat} {t t' : SymbolTable} {is : List Instruction} {values : List StackValue}
    {g : Generator} {count : Nat} {counts : List Nat} :
    args.Translates l pc t is values t' → g.At l pc t → g.argCounts = count :: counts →
      Performed args.steps g (g.passes is values ((count + values.length) :: counts) t')
  | .none, hg, hcount => by
    obtain ⟨-, -, rfl⟩ := hg
    have hsame : g.passes [] [] ((count + 0) :: counts) g.symbols = g := by
      simp [Generator.passes, ← hcount]
    rw [List.length_nil, hsame]
    exact .nil
  | .last he, hg, hcount =>
    .append (he.performed hslots hg) (.cons (performs_incrementArgCount hcount) .nil)
  | .more he hrest, hg, hcount => by
    rename_i is v t₁ js vs
    have hg₁ := hg.gives is v t₁
    have hpass := hrest.performed hslots (g := { g.gives is v t₁ with
      argCounts := (count + 1) :: counts }) ⟨hg₁.layout, hg₁.pc, hg₁.symbols⟩ rfl
    refine .append (.append (he.performed hslots hg)
      (.cons (performs_incrementArgCount hcount) .nil)) ?_
    have hcounts : count + 1 + vs.length = count + (v :: vs).length := by
      rw [List.length_cons]
      omega
    simpa [Generator.passes, Generator.gives, hcounts] using hpass

end

/-! ### Storage -/

theorem SymbolTable.Stores.declare {x : String} {ty : Ty} {words : Nat} {t t' : SymbolTable}
    (h : Stores x ty words t t') : ∃ s, SymbolTable.declare x ty words t = .ok s t' := by
  cases h with
  | inner hf hopen hfresh hfits =>
    exact ⟨_, declare_local hf hopen (by rw [current, hf]; exact hfresh)
      (by rw [hasRoom, hf]; exact hfits)⟩
  | outer hf hfresh hroom =>
    exact ⟨_, declare_global hf (by rw [current, hf]; exact hfresh) hroom⟩

theorem VarDecl.Declares.performed {d : VarDecl} {t t' : SymbolTable} (h : d.Declares t t')
    {g : Generator} (hg : g.symbols = t) : Performed d.steps g (g.withSymbols t') := by
  subst hg
  cases h with
  | scalar hstores =>
    obtain ⟨s, hdeclare⟩ := hstores.declare
    refine .append (.cons (performs_pushType rfl) (.cons performs_pushName .nil)) (.cons ?_ .nil)
    exact Does.declareVariable rfl (does_declareStorage (by exact hdeclare))
  | array hn hstores =>
    obtain ⟨s, hdeclare⟩ := hstores.declare
    refine .append (.cons (performs_pushType rfl) (.cons performs_pushName .nil))
      (.cons (performs_pushNumber hn) (.cons ?_ .nil))
    exact Does.declareArray rfl rfl (does_declareStorage (by exact hdeclare))

theorem Chain.performed_declares {ds : List VarDecl} {t t' : SymbolTable}
    (h : Chain VarDecl.Declares ds t t') {g : Generator} (hg : g.symbols = t) :
    Performed (ds.flatMap VarDecl.steps) g (g.withSymbols t') := by
  induction h generalizing g with
  | nil =>
    subst hg
    exact .nil
  | cons hd _ ih =>
    rw [List.flatMap_cons]
    exact .append (hd.performed hg) (ih (g := g.withSymbols _) rfl)

/-! ### Statements -/

namespace Generator

/-- The state after the code of a statement: its open jumps wait in the lists of the loop and of
    the function. -/
def planned (g : Generator) (ps : List Planned) (t : SymbolTable) : Generator :=
  { g with
    code := g.code.plan ps
    symbols := t
    breaks := g.breaks.modifyHead (· ++ Planned.holes .leave g.code.pc ps)
    body := g.body.map fun b => { b with returns := b.returns ++ Planned.holes .back g.code.pc ps } }

variable {g : Generator} {l : Layout} {pc : Nat} {t t' : SymbolTable}

theorem At.planned (h : g.At l pc t) (ps : List Planned) (t' : SymbolTable) :
    (g.planned ps t').At l (pc + ps.length) t' :=
  ⟨h.layout, by rw [← h.pc]; exact Store.pc_plan .., rfl⟩

theorem modifyHead_append_nil {α : Type} (xss : List (List α)) :
    xss.modifyHead (· ++ []) = xss := by
  cases xss <;> simp

/-- Code without open jumps is appended, and nothing else changes. -/
theorem planned_of_closed {ps : List Planned} (hleave : Planned.holes .leave g.code.pc ps = [])
    (hback : Planned.holes .back g.code.pc ps = []) (t : SymbolTable) :
    g.planned ps t = { g with code := g.code.plan ps, symbols := t } := by
  rw [Generator.planned, hleave, hback, modifyHead_append_nil]
  cases g.body <;> simp

theorem planned_plain (is : List Instruction) (t : SymbolTable) :
    g.planned (plain is) t = { g with code := g.code.append is, symbols := t } := by
  rw [planned_of_closed (Planned.holes_leave_plain ..) (Planned.holes_back_plain ..),
    Store.append_eq_plan]

theorem planned_back {b : Body} (hb : g.body = some b) (t : SymbolTable) :
    g.planned [.back] t =
      { g with
        code := g.code.plan [.back]
        symbols := t
        body := some { b with returns := b.returns ++ [⟨g.code.pc⟩] } } := by
  have hleave : Planned.holes .leave g.code.pc [.back] = [] := rfl
  rw [Generator.planned, hleave, modifyHead_append_nil, hb]
  rfl

theorem planned_planned (ps qs : List Planned) :
    (g.planned ps t).planned qs t' = g.planned (ps ++ qs) t' := by
  simp [Generator.planned, Planned.holes_append, Function.comp_def, List.modifyHead_modifyHead]

end Generator

section
variable {l : Layout} {pc : Nat} {t t' : SymbolTable} {e : Expr} {is : List Instruction}
  {c : Operand} {g : Generator}

/-- The slot of the jump past a branch stands right after the test. -/
def Generator.branching (g : Generator) (is : List Instruction) (c : Operand) (t : SymbolTable) :
    Generator :=
  { g with
    code := g.code.plan (plain is ++ [.back])
    symbols := t
    stack := .branch ⟨g.code.pc + is.length⟩ c :: g.stack }

theorem Generator.at_branching (g : Generator) (is : List Instruction) (c : Operand)
    (t : SymbolTable) : (g.branching is c t).At g.layout (g.code.pc + is.length + 1) t :=
  ⟨rfl, by simp [Generator.branching, Nat.add_assoc], rfl⟩

/-- A test is followed by the slot of the jump past what it guards. -/
theorem performed_branch {steps : List Step} {g₀ : Generator} {v : StackValue} {s : Symbol}
    (h : Performed steps g (g₀.gives is v t)) (hv : v.IsInt s)
    (hslots : 3 ≤ g₀.layout.scratchSlots.toNat) (token : Token) :
    Performed (steps ++ [⟨.reserveJumpSlot, token⟩]) g
      (g₀.branching (is ++ (Use.value g₀.layout 0 s).code) (Use.value g₀.layout 0 s).operand t) := by
  refine .append h (.cons ?_ .nil)
  have hbranch := performs_reserveJumpSlot (t := token) (g := g₀.gives is v t) rfl hv.1 hv.2 hslots
  rw [Store.reserve_eq_plan _ (show Planned.back.slot = none from rfl)] at hbranch
  simpa [Generator.gives, Generator.branching, Store.append_eq_plan, Planned.plain_append,
    Nat.add_assoc] using hbranch

theorem Expr.Tests.performed_branch (h : e.Tests l pc t is c t')
    (hslots : 3 ≤ l.scratchSlots.toNat) (hg : g.At l pc t) (token : Token) :
    Performed (e.steps ++ [⟨.reserveJumpSlot, token⟩]) g (g.branching is c t') := by
  obtain ⟨rfl, rfl, rfl⟩ := hg
  cases h with
  | intro he hv =>
    exact OnePass.performed_branch (he.performed hslots ⟨rfl, rfl, rfl⟩) hv hslots token

/-- The state after the first of two branches: at its end a slot waits for the jump past the
    second. -/
def Generator.skipping (g : Generator) (first : List Planned) (t : SymbolTable) : Generator :=
  { g.planned first t with
    code := g.code.plan (first ++ [.back])
    stack := .slot ⟨g.code.pc + first.length⟩ :: g.stack }

theorem Generator.at_skipping (g : Generator) (first : List Planned) (t : SymbolTable) :
    (g.skipping first t).At g.layout (g.code.pc + first.length + 1) t :=
  ⟨rfl, by simp [Generator.skipping, Nat.add_assoc], rfl⟩

/-- The test of two branches jumps past the first and its slot. -/
theorem performed_skip {steps more : List Step} {g₀ g₁ : Generator} {t₂ : SymbolTable}
    {ps : List Planned} (htest : Performed steps g (g₀.branching is c t))
    (hthen : Performed more (g₀.branching is c t) ((g₁.branching is c t).planned ps t₂))
    (htidy : g₁.code.Tidy) (elseToken : Token) :
    Performed (steps ++ more ++ [⟨.emitCondJumpAndReserveNext, elseToken⟩]) g
      (g₁.skipping
        (plain (is ++ [.jumpIfFalse c (g₁.code.pc + is.length + 1 + ps.length + 1)]) ++ ps) t₂) := by
  let after := (g₁.branching is c t).planned ps t₂
  have hpc : after.code.pc = g₁.code.pc + is.length + 1 + ps.length :=
    ((g₁.at_branching is c t).planned ps t₂).pc
  have hcode : after.code.reserve.2 = g₁.code.plan (plain is ++ .back :: (ps ++ [.back])) := by
    rw [Store.reserve_eq_plan _ (show Planned.back.slot = none from rfl)]
    simp [after, Generator.planned, Generator.branching]
  have hfill := Store.fill_plan htidy (plain is) (ps ++ [.back])
    (show Planned.back.slot = none from rfl) (.jumpIfFalse c (after.code.pc + 1))
  rw [← hcode, Planned.length_plain] at hfill
  have hskip := performs_startElse (t := elseToken) (g := after) rfl hfill
  rw [hpc] at hskip
  refine .append (.append htest hthen) (.cons ?_ .nil)
  have hsum : ps.length + 1 = 1 + ps.length := Nat.add_comm ..
  simpa [after, Generator.skipping, Generator.planned, Generator.branching, Planned.holes_append,
    Planned.plain_append, Planned.plain_singleton, Planned.holes, Nat.add_assoc, hsum] using hskip

theorem Expr.Tests.performed_skip {t₂ : SymbolTable} {ps : List Planned} {steps : List Step}
    (h : e.Tests l pc t is c t') (hslots : 3 ≤ l.scratchSlots.toNat) (hg : g.At l pc t)
    (htidy : g.code.Tidy)
    (hthen : Performed steps (g.branching is c t') ((g.branching is c t').planned ps t₂))
    (token elseToken : Token) :
    Performed (e.steps ++ [⟨.reserveJumpSlot, token⟩] ++ steps
        ++ [⟨.emitCondJumpAndReserveNext, elseToken⟩]) g
      (g.skipping
        (plain (is ++ [.jumpIfFalse c (pc + is.length + 1 + ps.length + 1)]) ++ ps) t₂) := by
  rw [← hg.pc]
  exact OnePass.performed_skip (h.performed_branch hslots hg token) hthen htidy elseToken

/-- The test of one branch jumps past it. -/
theorem performed_ifThen {steps more : List Step} {g₀ g₁ : Generator} {t₂ : SymbolTable}
    {ps : List Planned} (htest : Performed steps g (g₀.branching is c t))
    (hthen : Performed more (g₀.branching is c t) ((g₁.branching is c t).planned ps t₂))
    (htidy : g₁.code.Tidy) (token : Token) :
    Performed (steps ++ more ++ [⟨.patchCondJumpToHere, token⟩]) g
      (g₁.planned (plain (is ++ [.jumpIfFalse c (g₁.code.pc + is.length + 1 + ps.length)]) ++ ps)
        t₂) := by
  let after := (g₁.branching is c t).planned ps t₂
  have hpc : after.code.pc = g₁.code.pc + is.length + 1 + ps.length :=
    ((g₁.at_branching is c t).planned ps t₂).pc
  have hcode : after.code = g₁.code.plan (plain is ++ .back :: ps) := by
    simp [after, Generator.planned, Generator.branching]
  have hfill := Store.fill_plan htidy (plain is) ps (show Planned.back.slot = none from rfl)
    (.jumpIfFalse c after.code.pc)
  rw [← hcode, Planned.length_plain] at hfill
  have hend := performs_endBranch (t := token) (g := after) rfl hfill
  rw [hpc] at hend
  refine .append (.append htest hthen) (.cons ?_ .nil)
  simpa [after, Generator.planned, Generator.branching, Planned.holes_append, Planned.plain_append,
    Planned.plain_singleton, Planned.holes, Nat.add_assoc] using hend

/-- The first of two branches jumps past the second. -/
theorem performed_ifElse {steps more : List Step} {g₁ g₂ : Generator} {t₃ : SymbolTable}
    {first qs : List Planned} (hfirst : Performed steps g (g₁.skipping first t))
    (hother : Performed more (g₁.skipping first t) ((g₂.skipping first t).planned qs t₃))
    (htidy : g₂.code.Tidy) (token : Token) :
    Performed (steps ++ more ++ [⟨.patchJumpToHere, token⟩]) g
      (g₂.planned (first ++ plain [.jump (g₂.code.pc + first.length + 1 + qs.length)] ++ qs)
        t₃) := by
  let after := (g₂.skipping first t).planned qs t₃
  have hpc : after.code.pc = g₂.code.pc + first.length + 1 + qs.length :=
    ((g₂.at_skipping first t).planned qs t₃).pc
  have hcode : after.code = g₂.code.plan (first ++ .back :: qs) := by
    simp [after, Generator.skipping, Generator.planned]
  have hfill := Store.fill_plan htidy first qs (show Planned.back.slot = none from rfl)
    (.jump after.code.pc)
  rw [← hcode] at hfill
  have hend := performs_endElse (t := token) (g := after) rfl hfill
  rw [hpc] at hend
  refine .append (.append hfirst hother) (.cons ?_ .nil)
  simpa [after, Generator.skipping, Generator.planned, Planned.holes_append,
    Planned.plain_singleton, Planned.holes, Function.comp_def, Nat.add_assoc] using hend

/-- The state in which the body of a loop is read. -/
def Generator.looping (g : Generator) : Generator :=
  { g with breaks := [] :: g.breaks, stack := .label g.code.pc :: g.stack }

/-- A loop jumps back to its start unless its test holds; its breaks lead past it. -/
theorem performed_loop {steps test : List Step} {g₁ g₂ : Generator} {t₁ : SymbolTable}
    {ps : List Planned} {v : StackValue} {s : Symbol}
    (hbody : Performed steps g.looping (g₁.looping.planned ps t₁))
    (htest : Performed test (g₁.looping.planned ps t₁) ((g₂.looping.planned ps t₁).gives is v t))
    (hv : v.IsInt s) (hslots : 3 ≤ g₂.layout.scratchSlots.toNat) (htidy : g₂.code.Tidy)
    (opening closing : Token) :
    Performed ([⟨.pushBreakScope, opening⟩, ⟨.labelHere, opening⟩] ++ steps ++ test
        ++ [⟨.jumpBackIfFalse, closing⟩, ⟨.closeBreakScope, closing⟩]) g
      (g₂.planned ((ps ++ plain (is ++ (Use.value g₂.layout 0 s).code
          ++ [.jumpIfFalse (Use.value g₂.layout 0 s).operand g₂.code.pc])).map
        (settle .leave (.jump (g₂.code.pc + ps.length
          + (is ++ (Use.value g₂.layout 0 s).code).length + 1)))) t) := by
  let js := is ++ (Use.value g₂.layout 0 s).code
  let whole : List Planned :=
    ps ++ plain (js ++ [.jumpIfFalse (Use.value g₂.layout 0 s).operand g₂.code.pc])
  let after : Generator := { g₂.looping.planned whole t with stack := g₂.stack }
  have hafter : after = { (g₂.looping.planned ps t₁).gives is v t with
      stack := g₂.stack
      code := ((g₂.looping.planned ps t₁).gives is v t).code.append ((Use.value g₂.layout 0 s).code
        ++ [.jumpIfFalse (Use.value g₂.layout 0 s).operand g₂.code.pc]) } := by
    simp [after, whole, js, Generator.planned, Generator.gives, Generator.looping,
      Planned.holes_append, Store.append_eq_plan, Planned.plain_append]
  have hrepeat : Performs ⟨.jumpBackIfFalse, closing⟩ ((g₂.looping.planned ps t₁).gives is v t)
      after := by
    rw [hafter]
    exact performs_repeatLoop rfl hv.1 hv.2 hslots
  -- all breaks of the loop are those that its body planned
  have hbreaks : after.breaks = Planned.holes .leave g₂.code.pc whole :: g₂.breaks := rfl
  have hpc : after.code.pc = g₂.code.pc + ps.length + js.length + 1 := by
    simp [after, whole, Generator.planned, Generator.looping, Nat.add_assoc]
  have hfill := Store.fillAll_plan htidy (show Planned.leave.slot = none from rfl)
    (.jump after.code.pc) [] whole
  have hclose := performs_closeBreaks (t := closing) hbreaks hfill
  rw [hpc] at hclose
  refine .append (.append (.append (.cons performs_openBreaks (.cons performs_startLoop .nil))
    hbody) htest) (.cons hrepeat (.cons ?_ .nil))
  have hleave := Planned.holes_settle_same (show Planned.leave.slot = none from rfl)
    (.jump (g₂.code.pc + ps.length + js.length + 1)) g₂.code.pc whole
  have hback := Planned.holes_settle_other (show Planned.back.slot = none from rfl)
    (show Planned.back ≠ .leave by decide)
    (.jump (g₂.code.pc + ps.length + js.length + 1)) g₂.code.pc whole
  rw [Generator.planned, hleave, hback, Generator.modifyHead_append_nil]
  exact hclose

/-- A break jumps out of the innermost loop. -/
theorem performed_leave (hbreaks : g.breaks ≠ []) (hbody : g.body.isSome) (token : Token) :
    Performed [⟨.registerBreak, token⟩] g (g.planned [.leave] g.symbols) := by
  obtain ⟨first, rest, hbreaks⟩ := List.exists_cons_of_ne_nil hbreaks
  obtain ⟨b, hb⟩ := Option.isSome_iff_exists.mp hbody
  have hleave := performs_registerBreak (t := token) hbreaks
  rw [Store.reserve_eq_plan _ (show Planned.leave.slot = none from rfl)] at hleave
  refine .cons ?_ .nil
  simpa [Generator.planned, hbreaks, Planned.holes, hb] using hleave

/-- A return jumps to the end of the function. -/
theorem performed_return (hbody : g.body.isSome) (token : Token) :
    Performed [⟨.markReturn, token⟩] g (g.planned [.back] g.symbols) := by
  obtain ⟨b, hb⟩ := Option.isSome_iff_exists.mp hbody
  have hreturn := performs_markReturn (t := token) hb
  rw [Store.reserve_eq_plan _ (show Planned.back.slot = none from rfl)] at hreturn
  rw [Generator.planned_back hb]
  exact .cons hreturn .nil

/-- The value of a return is stored before the jump to the end of the function. -/
theorem performed_returnValue {steps : List Step} {g₀ : Generator} {v : StackValue} {s : Symbol}
    (h : Performed steps g (g₀.gives is v t)) (hv : v.IsInt s) (hbody : g₀.body.isSome)
    (hslots : 3 ≤ g₀.layout.scratchSlots.toNat) (token : Token) :
    Performed (steps ++ [⟨.storeReturnValue, token⟩, ⟨.markReturn, token⟩]) g
      (g₀.planned (plain (is ++ Fragment.storeReturn g₀.layout s) ++ [.back]) t) := by
  have hstore := performs_storeReturnValue (t := token) (g := g₀.gives is v t) rfl hv.1 hv.2 hslots
  let stored := g₀.planned (plain (is ++ Fragment.storeReturn g₀.layout s)) t
  have hstored : stored = { g₀.gives is v t with
      stack := g₀.stack
      code := (g₀.gives is v t).code.append (Fragment.storeReturn g₀.layout s) } := by
    simp [stored, Generator.planned_plain, Generator.gives]
  have hbody' : stored.body.isSome := by rw [hstored]; exact hbody
  refine .append h (.cons (hstored ▸ hstore) ?_)
  rw [← Generator.planned_planned (t := t)]
  exact performed_return hbody' token

/-- A block opens its scope, declares its locals and closes the scope again. -/
theorem performed_block {locals : List VarDecl} {steps : List Step} {g₁ : Generator}
    {t₁ t₂ : SymbolTable} {f f₂ : OpenFunction} {block : Scope} {blocks : List Scope}
    {ps : List Planned} (hf : g.symbols.function = some f)
    (hlocals : Chain VarDecl.Declares locals
      (g.symbols.withFunction { f with blocks := {} :: f.blocks }) t₁)
    (hbody : Performed steps (g.withSymbols t₁) ((g₁.withSymbols t₁).planned ps t₂))
    (hf₂ : t₂.function = some f₂) (hblocks : f₂.blocks = block :: blocks)
    (opening closing : Token) :
    Performed ([⟨.scopeUp, opening⟩] ++ locals.flatMap VarDecl.steps ++ steps
        ++ [⟨.scopeDown, closing⟩]) g (g₁.planned ps (t₂.withFunction { f₂ with blocks })) := by
  refine .append (.append (.append (.cons (performs_scopeUp (SymbolTable.openBlock_eq hf)) .nil)
    (hlocals.performed_declares (g := g.withSymbols _) rfl)) hbody) (.cons ?_ .nil)
  exact performs_scopeDown (g := (g₁.withSymbols t₁).planned ps t₂)
    (SymbolTable.closeBlock_eq hf₂ hblocks)

end

mutual

/-- The steps of a statement leave its code, with its open jumps in their lists. -/
theorem Stmt.Translates.performed {l : Layout} (hslots : 3 ≤ l.scratchSlots.toNat) (after : Token)
    {s : Stmt} {inLoop : Bool} {pc : Nat} {t t' : SymbolTable} {ps : List Planned}
    {g : Generator} :
    s.Translates l inLoop pc t ps t' → g.At l pc t → (inLoop = true → g.breaks ≠ []) →
      g.body.isSome → g.code.Tidy → Performed (s.steps after) g (g.planned ps t')
  | .empty, hg, _, _, _ => by
    obtain ⟨-, -, rfl⟩ := hg
    rw [Generator.planned_of_closed rfl rfl, Store.plan_nil]
    exact .nil
  | .expr he, hg, _, _, _ => by
    rw [Generator.planned_plain]
    exact .append (he.performed hslots hg) (.cons (performs_popExpression rfl) .nil)
  | .block hf hlocals hlist hf₂ hblocks, hg, hloop, hbody, htidy => by
    obtain ⟨rfl, rfl, rfl⟩ := hg
    exact performed_block hf hlocals (hlist.performed hslots _ ⟨rfl, rfl, rfl⟩ hloop hbody htidy) hf₂
      hblocks _ _
  | .leave, hg, hloop, hbody, _ => by
    obtain ⟨-, -, rfl⟩ := hg
    exact performed_leave (hloop rfl) hbody _
  | .ifThen htest hthen, hg, hloop, hbody, htidy => by
    rename_i is c t₁ ps
    obtain ⟨rfl, rfl, rfl⟩ := hg
    exact performed_ifThen (htest.performed_branch hslots ⟨rfl, rfl, rfl⟩ _)
      (hthen.performed hslots after (g.at_branching is c t₁) hloop hbody (htidy.plan _)) htidy after
  | .ifElse htest hthen helse, hg, hloop, hbody, htidy => by
    rename_i closing _ elseLine _ is c t₁ ps t₂ qs
    obtain ⟨rfl, rfl, rfl⟩ := hg
    let first : List Planned :=
      plain (is ++ [.jumpIfFalse c (g.code.pc + is.length + 1 + ps.length + 1)]) ++ ps
    have hlength : g.code.pc + first.length = g.code.pc + is.length + 1 + ps.length := by
      simp only [first, List.length_append, Planned.length_plain, List.length_singleton]
      omega
    have hskip := htest.performed_skip hslots ⟨rfl, rfl, rfl⟩ htidy
      (hthen.performed hslots (.keywordAt "else" elseLine) (g.at_branching is c t₁) hloop hbody
        (htidy.plan _)) (.symbolAt ")" closing) (.keywordAt "else" elseLine)
    have hg₂ : (g.skipping first t₂).At g.layout
        (g.code.pc + is.length + 1 + ps.length + 1) t₂ := by
      rw [← hlength]
      exact g.at_skipping first t₂
    have hother := helse.performed hslots after hg₂
      (fun h => by simpa [Generator.skipping, Generator.planned] using hloop h)
      (by simpa [Generator.skipping, Generator.planned] using hbody) (htidy.plan _)
    have hwhole := performed_ifElse hskip hother htidy after
    rw [hlength] at hwhole
    exact hwhole
  | .loop hloopBody (.intro hcond hv), hg, _, hbody, htidy => by
    obtain ⟨rfl, rfl, rfl⟩ := hg
    exact performed_loop (hloopBody.performed hslots _ ⟨rfl, rfl, rfl⟩
      (fun _ => List.cons_ne_nil _ _) hbody htidy)
      (hcond.performed hslots (Generator.At.planned ⟨rfl, rfl, rfl⟩ _ _)) hv hslots htidy _ _
  | .return, hg, _, hbody, _ => by
    obtain ⟨-, -, rfl⟩ := hg
    exact performed_return hbody _
  | .returnValue he hv, hg, _, hbody, _ => by
    obtain ⟨rfl, rfl, rfl⟩ := hg
    exact performed_returnValue (he.performed hslots ⟨rfl, rfl, rfl⟩) hv hbody hslots _

/-- The steps of statements in a row leave their code in a row. -/
theorem Stmt.ListTranslates.performed {l : Layout} (hslots : 3 ≤ l.scratchSlots.toNat)
    (after : Token) {ss : List Stmt} {inLoop : Bool} {pc : Nat} {t t' : SymbolTable}
    {ps : List Planned} {g : Generator} :
    Stmt.ListTranslates l inLoop pc t ss ps t' → g.At l pc t → (inLoop = true → g.breaks ≠ []) →
      g.body.isSome → g.code.Tidy → Performed (Stmt.listSteps after ss) g (g.planned ps t')
  | .nil, hg, _, _, _ => by
    obtain ⟨-, -, rfl⟩ := hg
    rw [Generator.planned_of_closed rfl rfl, Store.plan_nil]
    exact .nil
  | .cons hs hss, hg, hloop, hbody, htidy => by
    rename_i ps t₁ qs
    have hrest := hss.performed hslots after (hg.planned ps t₁)
      (fun h => by simpa [Generator.planned] using hloop h)
      (by simpa [Generator.planned] using hbody) (htidy.plan ps)
    rw [Generator.planned_planned] at hrest
    exact .append (hs.performed hslots _ hg hloop hbody htidy) hrest

end

/-! ### Functions -/

theorem Param.Adds.performed {p : Param} {t t' : SymbolTable} (h : p.Adds t t')
    {g : Generator} (hg : g.symbols = t) : Performed p.steps g (g.withSymbols t') := by
  subst hg
  obtain ⟨⟨base, line⟩, x, brackets⟩ := p
  cases h with
  | intro hbase hf hblocks hroom hfresh =>
    rename_i f
    obtain rfl : base = .int := hbase
    have hadd : ∀ byReference, Does (addParameter x.token byReference)
        (g.withStack (.name x.lexeme :: .type .int :: g.stack)) 0 ()
        (g.withSymbols (g.symbols.withParameter f x.lexeme (Ty.parameter .int byReference))) 0 := by
      intro byReference
      have hfresh' : SymbolTable.addParameter x.lexeme (Ty.parameter .int byReference) g.symbols =
          .ok _ (g.symbols.withParameter f x.lexeme (Ty.parameter .int byReference)) :=
        SymbolTable.addParameter_fresh hf hblocks hroom hfresh
      exact does_addParameter (g := g.withStack (.name x.lexeme :: .type .int :: g.stack)) rfl
        hfresh'
    refine .cons (performs_pushType rfl) (.cons performs_pushName (.cons ?_ .nil))
    cases brackets with
    | none => exact Does.performs 0 (hadd false)
    | some b => exact Does.performs 0 (hadd true)

theorem Chain.performed_adds {ps : List Param} {t t' : SymbolTable} (h : Chain Param.Adds ps t t')
    {g : Generator} (hg : g.symbols = t) :
    Performed (ps.flatMap Param.steps) g (g.withSymbols t') := by
  induction h generalizing g with
  | nil =>
    subst hg
    exact .nil
  | cons hp _ ih =>
    rw [List.flatMap_cons]
    exact .append (hp.performed hg) (ih (g := g.withSymbols _) rfl)

/-- Once the end of the function is known, code without open loops is plain. -/
theorem Planned.map_settle_back {ps : List Planned} (h : .leave ∉ ps) (epilogue : Nat) :
    ps.map (settle .back (.jump epilogue)) = plain (ps.map (Planned.finish epilogue)) := by
  rw [plain, List.map_map]
  refine List.map_congr_left fun p hp => ?_
  cases p with
  | code i => rfl
  | back => rfl
  | leave => exact absurd hp h

/-- The state after the head of a function: a slot of its prologue waits for the size of its
    record. -/
def Generator.starting (g : Generator) (name : String) (t : SymbolTable) : Generator :=
  { g with
    symbols := t
    body := some
      { name, prologue := some ⟨g.code.pc + (Fragment.prologue g.layout).length⟩ }
    code := g.code.plan (plain (Fragment.prologue g.layout) ++ [.back]) }

theorem Generator.at_starting (g : Generator) (name : String) (t : SymbolTable) :
    (g.starting name t).At g.layout (g.code.pc + (Fragment.prologue g.layout).length + 1) t :=
  ⟨rfl, by simp [Generator.starting, Nat.add_assoc], rfl⟩

/-- The state in which the parameters of a function are read. -/
def Generator.entering (g : Generator) (name : String) (ty : Ty) : Generator :=
  { g with
    symbols := g.symbols.withEntry name ty g.code.pc
    body := some { name } }

theorem TypeWord.ofKeyword? (w : TypeWord) : Ty.ofKeyword? w.token.lexeme = some w.base.ty := by
  cases hbase : w.base <;> simp [TypeWord.token, Token.keywordAt, hbase] <;> rfl

theorem FnDecl.performed_entry {f : FnDecl} {g : Generator} (hnone : g.symbols.function = none)
    (hbody : g.body = none) (hfresh : g.symbols.globals.contains f.name.lexeme = false) :
    Performed [⟨.pushType, f.type.token⟩, ⟨.pushName, f.name.token⟩,
      ⟨.declareFunction, f.name.token⟩] g (g.entering f.name.lexeme f.type.base.ty) := by
  have hopen : Performs ⟨.declareFunction, f.name.token⟩
      (g.withStack (.name f.name.lexeme :: .type f.type.base.ty :: g.stack))
      (g.entering f.name.lexeme f.type.base.ty) :=
    performs_declareFunction rfl hbody (SymbolTable.openFunction_fresh hnone hfresh _)
  exact .cons (performs_pushType f.type.ofKeyword?) (.cons performs_pushName (.cons hopen .nil))

theorem performs_beginFunction_entering {g : Generator} (hslots : 3 ≤ g.layout.scratchSlots.toNat)
    (name : String) (ty : Ty) (t : SymbolTable) (token : Token) :
    Performs ⟨.beginFunction, token⟩ ((g.entering name ty).withSymbols t) (g.starting name t) := by
  have hstep := performs_beginFunction (t := token) (g := (g.entering name ty).withSymbols t) rfl
    hslots
  rw [Store.reserve_eq_plan _ (show Planned.back.slot = none from rfl), Store.append_eq_plan,
    Store.plan_plan] at hstep
  exact hstep

/-- Around its body a function has code that the end of the body completes. -/
theorem performed_function {f : FnDecl} {g g₁ : Generator} {t₁ t₂ : SymbolTable}
    {ps : List Planned} {fn : OpenFunction} (hnone : g.symbols.function = none)
    (hbody : g.body = none) (hfresh : g.symbols.globals.contains f.name.lexeme = false)
    (hparams : Chain Param.Adds f.params.toList
      (g.symbols.withEntry f.name.lexeme f.type.base.ty g.code.pc) t₁)
    (hrun : Performed (f.body.stmt.steps f.body.close) (g.starting f.name.lexeme t₁)
      ((g₁.starting f.name.lexeme t₁).planned ps t₂))
    (hleave : .leave ∉ ps) (hfn : t₂.function = some fn) (hblocks : fn.blocks = [])
    (hopen : fn.record.closed = false) (hbody₁ : g₁.body = none) (htidy : g₁.code.Tidy)
    (hslots : 3 ≤ g.layout.scratchSlots.toNat) (hslots₁ : 3 ≤ g₁.layout.scratchSlots.toNat) :
    Performed f.steps g
      { g₁ with
        code := g₁.code.append (Fragment.function g₁.layout g₁.code.pc fn.record.size ps)
        symbols := { t₂ with function := none }
        frames := g₁.frames.push fn.frame } := by
  let started := g₁.starting f.name.lexeme t₁
  -- the slot of the prologue and those of the returns are the ones that wait
  let head := plain (Fragment.prologue g₁.layout)
  let move := Fragment.moveStack g₁.layout fn.record.size
  have hpc : (started.planned ps t₂).code.pc =
      g₁.code.pc + (Fragment.prologue g₁.layout).length + 1 + ps.length :=
    ((g₁.at_starting f.name.lexeme t₁).planned ps t₂).pc
  have hcode : (started.planned ps t₂).code = g₁.code.plan (head ++ .back :: ps) := by
    simp [started, head, Generator.planned, Generator.starting]
  have hfill := Store.fill_plan htidy head ps (show Planned.back.slot = none from rfl) move
  have hfillAll := Store.fillAll_plan htidy (show Planned.back.slot = none from rfl)
    (.jump (started.planned ps t₂).code.pc) (head ++ [.code move]) ps
  rw [List.append_assoc, List.append_assoc] at hfillAll
  rw [← hcode, Planned.length_plain] at hfill
  let returns := Planned.holes .back (g₁.code.pc + (head ++ [Planned.code move]).length) ps
  have hreturns : (started.planned ps t₂).body = some
      { name := f.name.lexeme
        prologue := some ⟨g₁.code.pc + (Fragment.prologue g₁.layout).length⟩
        returns } := by
    simp [started, head, returns, Generator.planned, Generator.starting]
  have hend := performs_endFunction (t := f.body.close) (g := started.planned ps t₂) hreturns rfl
    hfn hblocks hopen hfill hfillAll hslots₁
  rw [hpc, Planned.map_settle_back hleave] at hend
  refine .append (.append (.append (.append (FnDecl.performed_entry hnone hbody hfresh)
    (hparams.performed_adds (g := g.entering f.name.lexeme f.type.base.ty) rfl))
    (.cons (performs_beginFunction_entering hslots _ _ _ _) .nil)) hrun) (.cons ?_ .nil)
  have hwhole : (g₁.code.plan (head ++ ([.code move] ++ plain (ps.map (Planned.finish
      (g₁.code.pc + (Fragment.prologue g₁.layout).length + 1 + ps.length)))))).append
        (Fragment.epilogue g₁.layout) =
      g₁.code.append (Fragment.function g₁.layout g₁.code.pc fn.record.size ps) := by
    rw [Store.append_eq_plan, Store.append_eq_plan, Store.plan_plan, Fragment.function,
      Planned.plain_append, Planned.plain_append, Planned.plain_append, List.append_assoc,
      List.append_assoc, List.append_assoc, List.append_assoc]
    rfl
  have hsame : (started.planned ps t₂).breaks = g₁.breaks := by
    rw [Generator.planned, Planned.holes_eq_nil hleave, Generator.modifyHead_append_nil]
    rfl
  rw [hsame] at hend
  rw [← hwhole]
  exact hbody₁ ▸ hend

/-- The steps of a function leave its code and its frame. -/
theorem FnDecl.Translates.performed {l : Layout} (hslots : 3 ≤ l.scratchSlots.toNat) {f : FnDecl}
    {pc : Nat} {t t' : SymbolTable} {is : List Instruction} {frame : Frame}
    (h : f.Translates l pc t is t' frame) {g : Generator} (hg : g.At l pc t) (hbody : g.body = none)
    (htidy : g.code.Tidy) :
    Performed f.steps g
      { g with code := g.code.append is, symbols := t', frames := g.frames.push frame } := by
  obtain ⟨rfl, rfl, rfl⟩ := hg
  cases h with
  | intro hnone hfresh hparams hstmt hfn =>
    have hrun := hstmt.performed hslots f.body.close (g.at_starting f.name.lexeme _) (by simp) rfl
      (htidy.plan _)
    obtain ⟨hblocks, hopen⟩ := hparams.closable hstmt.extends hfn
    exact performed_function hnone hbody hfresh hparams hrun hstmt.leave_notMem hfn
      hblocks hopen hbody htidy hslots hslots

/-! ### Programs -/

/-- The steps of declarations leave their code and their frames. -/
theorem Decl.ListTranslates.performed {l : Layout} (hslots : 3 ≤ l.scratchSlots.toNat) {pc : Nat}
    {t t' : SymbolTable} {ds : List Decl} {is : List Instruction} {frames : List Frame}
    (h : Decl.ListTranslates l pc t ds is t' frames) {g : Generator} (hg : g.At l pc t)
    (hbody : g.body = none) (htidy : g.code.Tidy) :
    Performed (ds.flatMap Decl.steps) g
      { g with
        code := g.code.append is
        symbols := t'
        frames := g.frames ++ frames.toArray } := by
  induction h generalizing g with
  | nil =>
    obtain ⟨-, -, rfl⟩ := hg
    simpa using Performed.nil
  | var hd _ ih =>
    rw [List.flatMap_cons]
    exact .append (hd.performed hg.symbols) (ih (g := g.withSymbols _) ⟨hg.layout, hg.pc, rfl⟩ hbody
      htidy)
  | @fn pc t f ds is t₁ frame js t₂ frames hf _ ih =>
    rw [List.flatMap_cons]
    have hfirst := hf.performed hslots hg hbody htidy
    let g₁ : Generator :=
      { g with code := g.code.append is, symbols := t₁, frames := g.frames.push frame }
    have hg₁ : g₁.At l (pc + is.length) t₁ :=
      ⟨hg.layout, by rw [← hg.pc]; exact Store.pc_append .., rfl⟩
    have htidy₁ : g₁.code.Tidy := by
      simp only [g₁, Store.append_eq_plan]
      exact htidy.plan _
    have hrest := ih (g := g₁) hg₁ hbody htidy₁
    refine .append hfirst ?_
    simpa [g₁] using hrest

/-- The state in which the declarations of a program are read: the first slot waits for the jump
    to its start. -/
def Generator.begun (l : Layout) : Generator :=
  { Generator.initial l with
    start := some ⟨0⟩
    code := ({} : Store).plan [.back] }

theorem performs_beginProgram_initial (l : Layout) (token : Token) :
    Performs ⟨.beginProgram, token⟩ (Generator.initial l) (Generator.begun l) := by
  have hstep := performs_beginProgram (t := token) (g := Generator.initial l) rfl
  rw [Store.reserve_eq_plan _ (show Planned.back.slot = none from rfl)] at hstep
  exact hstep

/-- The state after the declarations of a program. -/
def Generator.declared (l : Layout) (is : List Instruction) (t : SymbolTable)
    (frames : List Frame) : Generator :=
  { Generator.begun l with
    code := ({} : Store).plan (.back :: plain is)
    symbols := t
    frames := frames.toArray }

theorem Store.tidy_empty : ({} : Store).Tidy := nofun

theorem Generator.declared_eq (l : Layout) (is : List Instruction) (t : SymbolTable)
    (frames : List Frame) :
    { Generator.begun l with
      code := (Generator.begun l).code.append is
      symbols := t
      frames := (Generator.begun l).frames ++ frames.toArray } =
      Generator.declared l is t frames := by
  have hframes : (Generator.begun l).frames ++ frames.toArray = frames.toArray :=
    Array.empty_append
  have hcode : (Generator.begun l).code.plan (plain is) = ({} : Store).plan (.back :: plain is) :=
    Store.plan_plan _ [.back] (plain is)
  rw [hframes, Store.append_eq_plan, hcode]
  rfl

theorem Decl.ListTranslates.performed_begun {l : Layout} (hslots : 3 ≤ l.scratchSlots.toNat)
    {t : SymbolTable} {ds : List Decl} {is : List Instruction} {frames : List Frame}
    (h : Decl.ListTranslates l 1 (.initial l.dataBase) ds is t frames) :
    Performed (ds.flatMap Decl.steps) (Generator.begun l) (Generator.declared l is t frames) := by
  rw [← Generator.declared_eq]
  exact h.performed hslots (g := Generator.begun l) ⟨rfl, rfl, rfl⟩ rfl (Store.tidy_empty.plan _)

/-- The end of a program completes its code, whatever has been reported. -/
theorem performed_program {l : Layout} (hslots : 3 ≤ l.scratchSlots.toNat) {p : Program}
    {is : List Instruction} {t : SymbolTable} {frames : List Frame} {notes : Array Diagnostic}
    {main : Symbol}
    (hdecls : Performed (p.decls.flatMap Decl.steps) (Generator.begun l)
      { Generator.declared l is t frames with diagnostics := notes })
    (hnone : t.function = none) (hmain : (t.find? "main").filter Gen.isMain = some main)
    (stop : Token) :
    Performed (p.steps stop) (Generator.initial l)
      { Generator.initial l with
        code := ({} : Store).append ([.jump (1 + is.length)] ++ is
          ++ Fragment.start l t.dataEnd (1 + is.length) main.value)
        symbols := t
        frames := frames.toArray
        diagnostics := notes } := by
  let declared : Generator := { Generator.declared l is t frames with diagnostics := notes }
  let last := Fragment.start l t.dataEnd (1 + is.length) main.value
  have hpc : declared.code.pc = 1 + is.length := by
    have hlength := Store.pc_plan {} (.back :: plain is)
    rw [List.length_cons, Planned.length_plain] at hlength
    rw [Nat.add_comm, ← Nat.zero_add (is.length + 1)]
    exact hlength
  have hcode : declared.code.append last = ({} : Store).plan (.back :: plain (is ++ last)) := by
    simp [declared, Generator.declared, Store.append_eq_plan, Planned.plain_append]
  have hfill : (declared.code.append last).fill ⟨0⟩ (.jump declared.code.pc) =
      .ok (({} : Store).append ([.jump (1 + is.length)] ++ is ++ last)) := by
    rw [hcode, hpc, Store.append_eq_plan, List.append_assoc]
    exact Store.fill_plan Store.tidy_empty [] (plain (is ++ last))
      (show Planned.back.slot = none from rfl) (.jump (1 + is.length))
  have hend := performs_endProgram (t := stop) (g := declared) hnone rfl hmain
    (by rw [hpc]; rw [hpc] at hfill; exact hfill) hslots
  exact .append (.append (.cons (performs_beginProgram_initial l _) .nil) hdecls) (.cons hend .nil)

/-- The steps of a program leave its code and its frames, and nothing open. -/
theorem Program.Translates.performed {l : Layout} (hslots : 3 ≤ l.scratchSlots.toNat)
    {p : Program} {is : List Instruction} {t : SymbolTable} {frames : List Frame}
    (h : p.Translates l is t frames) (stop : Token) :
    Performed (p.steps stop) (Generator.initial l)
      { Generator.initial l with
        code := ({} : Store).append is
        symbols := t
        frames := frames.toArray } := by
  cases h with
  | intro hdecls hmain =>
    exact performed_program hslots (hdecls.performed_begun hslots) (hdecls.outside rfl) hmain stop

end OnePass
