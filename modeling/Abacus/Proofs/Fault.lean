import Abacus.Proofs.Context

/-!
# Adding details to a problem

A detail goes into the context of the first fault of a problem, as into a finite map, and changes nothing else. A
problem without a fault is wrapped in an internal one first, which is the code it had already.
-/

namespace Abacus

/-! ## Contexts as maps -/

namespace Context

section
variable {key key' k : Text} (value value' v : Detail) (es : List (Text × Detail))

theorem insertEntry_before (h : key < k) : insertEntry key value ((k, v) :: es) = (key, value) :: (k, v) :: es :=
  if_pos h

theorem insertEntry_here : insertEntry key value ((key, v) :: es) = (key, value) :: es := by
  rw [insertEntry, if_neg (List.lt_irrefl key), if_pos rfl]

theorem insertEntry_behind (h : k < key) :
    insertEntry key value ((k, v) :: es) = (k, v) :: insertEntry key value es := by
  rw [insertEntry, if_neg (List.lt_asymm h), if_neg fun he : key = k => List.lt_irrefl k (he ▸ h)]

theorem insertEntry_insertEntry : insertEntry key value' (insertEntry key value es) = insertEntry key value' es := by
  induction es with
  | nil => exact insertEntry_here value' value []
  | cons e es ih =>
      obtain ⟨k, v⟩ := e
      rcases Std.lt_trichotomy key k with h | rfl | h
      · rw [insertEntry_before _ _ _ h, insertEntry_before _ _ _ h, insertEntry_here]
      · rw [insertEntry_here, insertEntry_here, insertEntry_here]
      · rw [insertEntry_behind _ _ _ h, insertEntry_behind _ _ _ h, insertEntry_behind _ _ _ h, ih]

/-- Of two details the one with the smaller name finds its place first, and the other one behind it. -/
theorem insertEntry_comm_of_lt (h : key < key') :
    insertEntry key value (insertEntry key' value' es) = insertEntry key' value' (insertEntry key value es) := by
  induction es with
  | nil => exact (insertEntry_before value value' [] h).trans (insertEntry_behind value' value [] h).symm
  | cons e es ih =>
      obtain ⟨k, v⟩ := e
      rcases Std.lt_trichotomy key k with hk | rfl | hk
      · rw [insertEntry_before value _ _ hk, insertEntry_behind _ _ _ h]
        rcases Std.lt_trichotomy key' k with hk' | rfl | hk'
        · rw [insertEntry_before _ _ _ hk', insertEntry_before _ _ _ h]
        · rw [insertEntry_here, insertEntry_before _ _ _ h]
        · rw [insertEntry_behind _ _ _ hk', insertEntry_before _ _ _ hk]
      · rw [insertEntry_here, insertEntry_behind _ _ _ h, insertEntry_behind _ _ _ h, insertEntry_here]
      · have hk' : k < key' := List.lt_trans hk h
        rw [insertEntry_behind _ _ _ hk', insertEntry_behind _ _ _ hk, insertEntry_behind _ _ _ hk,
          insertEntry_behind _ _ _ hk', ih]

theorem insertEntry_comm (h : key ≠ key') :
    insertEntry key value (insertEntry key' value' es) = insertEntry key' value' (insertEntry key value es) := by
  rcases Std.lt_trichotomy key key' with hlt | heq | hgt
  · exact insertEntry_comm_of_lt value value' es hlt
  · exact absurd heq h
  · exact (insertEntry_comm_of_lt value' value es hgt).symm

end

end Context

namespace Fault

variable (f : Fault) {key key' : Text} (value value' : Detail)

theorem attach_attach : (f.attach key value).attach key value' = f.attach key value' := by
  simp only [attach, Context.insert, Context.insertEntry_insertEntry]

theorem attach_comm (h : key ≠ key') :
    (f.attach key value).attach key' value' = (f.attach key' value').attach key value := by
  simp only [attach, Context.insert, Context.insertEntry_comm _ _ _ h.symm]

theorem userMessage_attach (hs : key ≠ statementKey) (hl : key ≠ lineKey) :
    (f.attach key value).userMessage = f.userMessage := by
  simp only [userMessage, attach_code, attach_message, attach_context, Context.find?_insert, hs.symm, hl.symm,
    ↓reduceIte]

end Fault

/-! ## The first fault -/

namespace Problem

/-- The faults on the way to the root cause, the first one first. -/
def faults : Problem → List Fault
  | .plain _ => []
  | .fault f => [f]
  | .caused f cause => f :: cause.faults
  | .noted _ cause => cause.faults

variable (p : Problem) (g : Fault → Fault)

theorem head?_faults : p.faults.head? = p.firstFault? := by
  induction p with
  | plain _ => rfl
  | fault f => rfl
  | caused f cause _ => rfl
  | noted _ cause ih => exact ih

theorem firstFault?_eq_none_iff : p.firstFault? = none ↔ p.faults = [] := by
  rw [← head?_faults, List.head?_eq_none_iff]

theorem firstFault?_mapFirstFault : (p.mapFirstFault g).firstFault? = p.firstFault?.map g := by
  induction p with
  | plain _ => rfl
  | fault f => rfl
  | caused f cause _ => rfl
  | noted _ cause ih => exact ih

theorem faults_mapFirstFault : (p.mapFirstFault g).faults = p.faults.modifyHead g := by
  induction p with
  | plain _ => rfl
  | fault f => rfl
  | caused f cause _ => rfl
  | noted _ cause ih => exact ih

theorem mapFirstFault_mapFirstFault (g' : Fault → Fault) :
    (p.mapFirstFault g).mapFirstFault g' = p.mapFirstFault fun f => g' (g f) := by
  induction p with
  | plain _ => rfl
  | fault f => rfl
  | caused f cause _ => rfl
  | noted t cause ih => exact congrArg (Problem.noted t) ih

/-! ## Adding details -/

section
variable {p} {f : Fault} (key key' : Text) (value value' : Detail)

theorem addContext_of_some (h : p.firstFault? = some f) :
    p.addContext key value = p.mapFirstFault (·.attach key value) := by
  simp only [addContext, h]

theorem addContext_of_none (h : p.firstFault? = none) :
    p.addContext key value = .caused (internalWrapper key value) p := by
  simp only [addContext, h]

theorem addContext_mapFirstFault (h : p.firstFault? = some f) (g : Fault → Fault) :
    (p.mapFirstFault g).addContext key value = p.mapFirstFault fun f => (g f).attach key value := by
  have hg : (p.mapFirstFault g).firstFault? = some (g f) := by rw [firstFault?_mapFirstFault, h, Option.map_some]
  rw [addContext_of_some key value hg, mapFirstFault_mapFirstFault]

/-- The fault that takes a detail: the first one, or one of its own. -/
theorem firstFault?_addContext (p : Problem) (key : Text) (value : Detail) :
    (p.addContext key value).firstFault? =
      some ((p.firstFault?.getD (.of .internal "wrapped error")).attach key value) := by
  cases h : p.firstFault? with
  | some f => rw [addContext_of_some key value h, firstFault?_mapFirstFault, h, Option.map_some, Option.getD_some]
  | none => rw [addContext_of_none key value h]; rfl

theorem code_addContext (p : Problem) (key : Text) (value : Detail) : (p.addContext key value).code = p.code := by
  simp only [code, firstFault?_addContext, Fault.attach_code]
  cases p.firstFault? <;> rfl

theorem hasCode_eq_true_iff (h : p.firstFault? = some f) (c : Code) : p.hasCode c = true ↔ p.code = c := by
  simp only [hasCode, code, h, beq_iff_eq]

theorem addContext_comm (p : Problem) (h : key ≠ key') :
    (p.addContext key value).addContext key' value' = (p.addContext key' value').addContext key value := by
  cases hp : p.firstFault? with
  | some f =>
      rw [addContext_of_some key value hp, addContext_of_some key' value' hp, addContext_mapFirstFault _ _ hp,
        addContext_mapFirstFault _ _ hp]
      exact congrArg p.mapFirstFault (funext fun f => f.attach_comm value value' h)
  | none =>
      rw [addContext_of_none key value hp, addContext_of_none key' value' hp]
      exact congrArg (caused · p) ((Fault.of .internal "wrapped error").attach_comm value value' h)

theorem addContext_addContext (p : Problem) :
    (p.addContext key value).addContext key value' = p.addContext key value' := by
  cases hp : p.firstFault? with
  | some f =>
      rw [addContext_of_some key value hp, addContext_of_some key value' hp, addContext_mapFirstFault _ _ hp]
      exact congrArg p.mapFirstFault (funext fun f => f.attach_attach value value')
  | none =>
      rw [addContext_of_none key value hp, addContext_of_none key value' hp]
      exact congrArg (caused · p) ((Fault.of .internal "wrapped error").attach_attach value value')

theorem faults_addContext {rest : List Fault} (h : p.faults = f :: rest) :
    (p.addContext key value).faults = f.attach key value :: rest := by
  have hf : p.firstFault? = some f := by rw [← head?_faults, h, List.head?_cons]
  rw [addContext_of_some key value hf, faults_mapFirstFault, h, List.modifyHead_cons]

theorem userMessage_addContext (h : p.firstFault? = some f) (hs : key ≠ Fault.statementKey)
    (hl : key ≠ Fault.lineKey) : (p.addContext key value).userMessage = p.userMessage := by
  simp only [userMessage, firstFault?_addContext, h, Option.getD_some, f.userMessage_attach value hs hl]

end

/-- Adding a detail updates the context of the first fault and nothing else. The code and the family stay, and there is
a fault from then on, whose code is the only one that the problem has. Its context is the one before with the detail put
in; no other fault gets it. Details of different names may be added in either order, and of two of one name the later
one stays, so that the texts are the same as well. What users see of a problem with a fault depends on the details
`statement` and `line` only. -/
theorem addContext_updates (p : Problem) (key : Text) (value : Detail) :
    ((p.addContext key value).code = p.code ∧ (p.addContext key value).family = p.family) ∧
    (∃ f, (p.addContext key value).firstFault? = some f ∧
      ∀ name, f.context.find? name =
        if name = key then some value else p.firstFault?.bind (·.context.find? name)) ∧
    (∀ c, (p.addContext key value).hasCode c = true ↔ (p.addContext key value).code = c) ∧
    (∀ key' value', key ≠ key' →
      (p.addContext key value).addContext key' value' = (p.addContext key' value').addContext key value) ∧
    (∀ value', (p.addContext key value).addContext key value' = p.addContext key value') ∧
    (∀ f rest, p.faults = f :: rest → (p.addContext key value).faults = f.attach key value :: rest) ∧
    (p.faults = [] → (p.addContext key value).faults = [internalWrapper key value]) ∧
    (p.faults ≠ [] → key ≠ Fault.statementKey → key ≠ Fault.lineKey →
      (p.addContext key value).userMessage = p.userMessage) := by
  have hcode := code_addContext p key value
  have hfirst := firstFault?_addContext p key value
  refine ⟨⟨hcode, congrArg Code.family hcode⟩, ⟨_, hfirst, fun name => ?_⟩, hasCode_eq_true_iff hfirst,
    fun key' value' h => addContext_comm key key' value value' p h,
    fun value' => addContext_addContext key value value' p, fun f rest h => faults_addContext key value h, fun h => ?_,
    fun h hs hl => ?_⟩
  · rw [Fault.attach_context, Context.find?_insert]
    cases p.firstFault? <;> rfl
  · rw [addContext_of_none key value ((firstFault?_eq_none_iff p).mpr h), faults, h]
  · obtain ⟨f, hf⟩ := Option.ne_none_iff_exists'.mp fun hnone => h ((firstFault?_eq_none_iff p).mp hnone)
    exact userMessage_addContext key value hf hs hl

/-- A note on a fault that was caused by another one. -/
def notedFault : Problem := note (some (.caused (.of .syntactic "bad") (.fault (.of .lexical "worse")))) "statement 2"

theorem notedFault_updates :
    Fault.tokenKey ≠ Fault.lineKey ∧
      (notedFault.addContext Fault.tokenKey (.text ")")).addContext Fault.lineKey (.int 3) =
        (notedFault.addContext Fault.lineKey (.int 3)).addContext Fault.tokenKey (.text ")") ∧
      notedFault.faults = [.of .syntactic "bad", .of .lexical "worse"] ∧
      (notedFault.addContext Fault.tokenKey (.text ")")).faults =
        [(Fault.of .syntactic "bad").attach Fault.tokenKey (.text ")"), .of .lexical "worse"] ∧
      (notedFault.addContext Fault.tokenKey (.text ")")).userMessage = ("SyntaxError: bad" : Text) ∧
      (Problem.plain "boom").faults = [] ∧
      ((Problem.plain "boom").addContext Fault.lineKey (.int 3)).faults = [internalWrapper Fault.lineKey (.int 3)] := by
  obtain ⟨-, -, -, hcomm, -, hfaults, -, hmessage⟩ := addContext_updates notedFault Fault.tokenKey (.text ")")
  obtain ⟨-, -, -, -, -, -, hplain, -⟩ := addContext_updates (.plain "boom") Fault.lineKey (.int 3)
  refine ⟨by decide, hcomm _ _ (by decide), rfl, hfaults _ _ rfl, ?_, rfl, hplain rfl⟩
  exact (hmessage (List.cons_ne_nil _ _) (by decide) (by decide)).trans rfl

end Problem

end Abacus
