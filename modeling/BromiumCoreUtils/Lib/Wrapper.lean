import BromiumCoreUtils.Lib.Linearizability

/-!
# Methods around a linearizable object

A method that calls one operation of an object, and makes something of its result, is called and
returns when the operation does, with another name and another result.  `Wraps` relates what the
object sees and what the callers of the methods see.  `Linearization.wraps` says that the calls of
the methods can be put into an order if those of the object can.
-/

namespace Linearizability

variable {Th T O R O' R' : Type} [DecidableEq Th]

/-- The second history is that of the methods, the first one that of the object, and `calls` has
the methods that were called and have not returned. -/
inductive Wraps (inner : O' → O) (outer : O' → R → R') :
    List (Action Th O R) → List (Action Th O' R') → (Th → Option O') → Prop where
  | nil : Wraps inner outer [] [] fun _ => none
  | call {h : List (Action Th O R)} {h' : List (Action Th O' R')} {calls : Th → Option O'}
      (hw : Wraps inner outer h h' calls) (th : Th) (op : O') :
      Wraps inner outer (h ++ [.call th (inner op)]) (h' ++ [.call th op])
        (Function.update calls th (some op))
  | answer {h : List (Action Th O R)} {h' : List (Action Th O' R')} {calls : Th → Option O'}
      (hw : Wraps inner outer h h' calls) {th : Th} {op : O'} (hcall : calls th = some op) (r : R) :
      Wraps inner outer (h ++ [.answer th r]) (h' ++ [.answer th (outer op r)])
        (Function.update calls th none)

namespace Wraps

variable {inner : O' → O} {outer : O' → R → R'} {h : List (Action Th O R)}
variable {h' : List (Action Th O' R')} {calls : Th → Option O'} {i j k : Nat} {th : Th} {op : O'}
variable {r' : R'}

theorem length_eq (hw : Wraps inner outer h h' calls) : h.length = h'.length := by
  induction hw with
  | nil => rfl
  | call _ _ _ ih | answer _ _ _ ih => simp [ih]

/-- The same threads call and return. -/
theorem map_thread (hw : Wraps inner outer h h' calls) :
    h.map Action.thread = h'.map Action.thread := by
  induction hw with
  | nil => rfl
  | call _ _ _ ih | answer _ _ _ ih => simp [ih, Action.thread]

theorem thread_eq (hw : Wraps inner outer h h' calls) {a : Action Th O R} (hk : h[k]? = some a) :
    ∃ a', h'[k]? = some a' ∧ a'.thread = a.thread := by
  have hthread : (h'.map Action.thread)[k]? = some a.thread := by
    rw [← hw.map_thread, List.getElem?_map, hk]
    rfl
  rw [List.getElem?_map, Option.map_eq_some_iff] at hthread
  exact hthread

/-- What a method calls. -/
theorem call_inner (hw : Wraps inner outer h h' calls) (hcall : h'[i]? = some (.call th op)) :
    h[i]? = some (.call th (inner op)) := by
  induction hw with
  | nil => simp at hcall
  | call hw th' op' ih =>
    rcases getElem?_concat_cases hcall with hcall | ⟨rfl, heq⟩
    · exact getElem?_concat_left (ih hcall)
    · injection heq with hth hop
      rw [← hw.length_eq, hth, hop]
      simp
  | answer hw _ _ ih =>
    rcases getElem?_concat_cases hcall with hcall | ⟨_, heq⟩
    · exact getElem?_concat_left (ih hcall)
    · cases heq

/-- Every call of the object comes from a method. -/
theorem exists_call (hw : Wraps inner outer h h' calls) {op : O}
    (hcall : h[i]? = some (.call th op)) :
    ∃ op', h'[i]? = some (.call th op') ∧ inner op' = op := by
  induction hw with
  | nil => simp at hcall
  | call hw th' op' ih =>
    rcases getElem?_concat_cases hcall with hcall | ⟨rfl, heq⟩
    · obtain ⟨op', hop', hinner⟩ := ih hcall
      exact ⟨op', getElem?_concat_left hop', hinner⟩
    · injection heq with hth hop
      refine ⟨op', ?_, hop.symm⟩
      rw [hw.length_eq, hth]
      simp
  | answer hw _ _ ih =>
    rcases getElem?_concat_cases hcall with hcall | ⟨_, heq⟩
    · obtain ⟨op', hop', hinner⟩ := ih hcall
      exact ⟨op', getElem?_concat_left hop', hinner⟩
    · cases heq

/-- A method that has not returned is the last thing its thread did. -/
theorem exists_open (hw : Wraps inner outer h h' calls) (hcall : calls th = some op) :
    ∃ i, Open h' i th op := by
  induction hw with
  | nil => cases hcall
  | call hw th' op' ih =>
    by_cases hth : th = th'
    · subst hth
      rw [Function.update_self] at hcall
      obtain rfl := Option.some.inj hcall
      exact ⟨_, .now _ th op'⟩
    · rw [Function.update_of_ne hth] at hcall
      obtain ⟨i, ho⟩ := ih hcall
      exact ⟨i, ho.concat (Ne.symm hth)⟩
  | @answer _ _ _ hw th' _ _ _ ih =>
    by_cases hth : th = th'
    · rw [hth, Function.update_self] at hcall
      cases hcall
    · rw [Function.update_of_ne hth] at hcall
      obtain ⟨i, ho⟩ := ih hcall
      exact ⟨i, ho.concat (Ne.symm hth)⟩

/-- A method returns what it makes of the result of its call. -/
theorem answers (hw : Wraps inner outer h h' calls) (hcall : h'[i]? = some (.call th op))
    (ha : Answers h' i j th r') : ∃ r, Answers h i j th r ∧ r' = outer op r := by
  induction hw with
  | nil => simp at hcall
  | call hw th' op' ih =>
    rcases ha.of_concat with ha | ⟨_, heq⟩
    · rcases getElem?_concat_cases hcall with hcall | ⟨rfl, _⟩
      · obtain ⟨r, ha, heq⟩ := ih hcall ha
        exact ⟨r, ha.concat, heq⟩
      · have hlt := ha.lt
        have hlength := ha.lt_length
        omega
    · cases heq
  | @answer h h' calls hw th' op' hop r ih =>
    rcases ha.of_concat with hold | ⟨rfl, heq⟩
    · rcases getElem?_concat_cases hcall with hcall | ⟨_, heq⟩
      · obtain ⟨r, ha, heq⟩ := ih hcall hold
        exact ⟨r, ha.concat, heq⟩
      · cases heq
    · injection heq with hth hr
      subst hth
      subst hr
      rcases getElem?_concat_cases hcall with hold | ⟨_, heq⟩
      · -- the call that returns is the open one
        obtain ⟨i', ho⟩ := hw.exists_open hop
        obtain rfl := ho.position_eq hold ha
        have hsame := ho.call.symm.trans hold
        injection hsame with hsame
        injection hsame with _ hop'
        refine ⟨r, ⟨?_, ?_, ?_⟩, by rw [hop']⟩
        · exact ha.lt
        · rw [← hw.length_eq]
          simp
        · intro k a hik hkj hk
          obtain ⟨a', hk', hthread⟩ := (Wraps.answer hw hop r).thread_eq hk
          rw [← hthread]
          exact ha.between k a' hik hkj hk'
      · cases heq

theorem precedes (hw : Wraps inner outer h h' calls) {e : Entry Th O' R'} {r : R}
    (hcall : h'[e.position]? = some (.call e.thread e.op)) (hp : Precedes h' e k) :
    Precedes h ⟨e.position, e.thread, inner e.op, r⟩ k := by
  obtain ⟨j, r', ha, hj⟩ := hp
  obtain ⟨r, ha, _⟩ := hw.answers hcall ha
  exact ⟨j, r, ha, hj⟩

end Wraps

section Order

variable {next : T → O → R → T → Prop} {next' : T → O' → R' → T → Prop} {init : T}
variable {inner : O' → O} {outer : O' → R → R'} {h : List (Action Th O R)}
variable {h' : List (Action Th O' R')} {calls : Th → Option O'} {order : List (Entry Th O R)}

/-- The call of the method that has made this call. -/
noncomputable def Entry.wrapped (inner : O' → O) (outer : O' → R → R')
    (h' : List (Action Th O' R')) (e : Entry Th O R)
    (he : ∃ op, h'[e.position]? = some (.call e.thread op) ∧ inner op = e.op) : Entry Th O' R' where
  position := e.position
  thread := e.thread
  op := he.choose
  result := outer he.choose e.result

omit [DecidableEq Th] in
theorem Entry.inner_wrapped (inner : O' → O) {e : Entry Th O R}
    (he : ∃ op, h'[e.position]? = some (.call e.thread op) ∧ inner op = e.op) :
    inner (e.wrapped inner outer h' he).op = e.op :=
  he.choose_spec.2

omit [DecidableEq Th] in
theorem sequential_wrapped
    (hnext : ∀ s op r t, next s (inner op) r t → next' s op (outer op r) t) {s t : T}
    (hs : Sequential next s order t)
    (he : ∀ e ∈ order, ∃ op, h'[e.position]? = some (.call e.thread op) ∧ inner op = e.op) :
    Sequential next' s (order.pmap (Entry.wrapped inner outer h') he) t := by
  induction hs with
  | nil s => exact .nil s
  | @cons s m t e es hstep _ ih =>
    rw [List.pmap_cons]
    refine .cons (m := m) ?_ (ih _)
    apply hnext
    rw [Entry.inner_wrapped inner]
    exact hstep

/-- The order of the calls of the object is one for the calls of the methods. -/
theorem Linearization.wraps
    (hnext : ∀ s op r t, next s (inner op) r t → next' s op (outer op r) t)
    (hw : Wraps inner outer h h' calls) (hlin : Linearization next init h order) :
    ∃ order', Linearization next' init h' order' := by
  have he : ∀ e ∈ order, ∃ op, h'[e.position]? = some (.call e.thread op) ∧ inner op = e.op :=
    fun e he => hw.exists_call (hlin.called e he)
  refine ⟨order.pmap (Entry.wrapped inner outer h') he, ?_, ?_, ?_, ?_, ?_⟩
  · obtain ⟨final, hs⟩ := hlin.legal
    exact ⟨final, sequential_wrapped hnext hs he⟩
  · rw [List.map_pmap]
    show (order.pmap (fun e _ => e.position) he).Nodup
    rw [List.pmap_eq_map]
    exact hlin.once
  · intro e' hmem
    obtain ⟨e, hin, rfl⟩ := List.mem_pmap.mp hmem
    exact (he e hin).choose_spec.1
  · intro i j th op r' hcall ha
    obtain ⟨r, hanswers, rfl⟩ := hw.answers hcall ha
    have hin := hlin.complete i j th _ r (hw.call_inner hcall) hanswers
    refine List.mem_pmap.mpr ⟨_, hin, ?_⟩
    have hsame := (he _ hin).choose_spec.1.symm.trans hcall
    injection hsame with hsame
    injection hsame with _ hop
    unfold Entry.wrapped
    rw [hop]
  · rw [List.pairwise_pmap]
    refine hlin.realTime.imp ?_
    intro a b hnot ha hb hp
    apply hnot
    have hprecedes := hw.precedes (r := b.result) hb.choose_spec.1 hp
    rw [Entry.inner_wrapped inner] at hprecedes
    exact hprecedes

end Order

end Linearizability
