import DocFilter.Proofs.Clause.Sound
import DocFilter.Proofs.Placement.Members
import DocFilter.Proofs.Reordering.Tests
import DocFilter.Scope

/-!
# Rearranged predicates

Two lists of predicates are rearranged if they differ only in the order of siblings, here or inside
groups, and in the order of conditions inside subqueries (`Predicate.Rearranged`). The same tests on
relations in another order become rearranged membership tests, once every operand is replaced by its
text (`rearranged_memberships`).
-/

namespace DocFilter

/-! ## Relations that admit any order -/

/-- A relation between lists that admits any order and that can be used on a part of a list. -/
structure OrderFree {α : Type} (R : List α → List α → Prop) : Prop where
  perm : ∀ {l l'}, l.Perm l' → R l l'
  trans : ∀ {l l' l''}, R l l' → R l' l'' → R l l''
  append_right : ∀ {l l'}, R l l' → ∀ r, R (l ++ r) (l' ++ r)

namespace OrderFree

variable {α β : Type} {R : List α → List α → Prop}

theorem append (hR : OrderFree R) {l l' r r' : List α} (hl : R l l') (hr : R r r') :
    R (l ++ r) (l' ++ r') := by
  have hleft : R (l' ++ r) (l' ++ r') :=
    hR.trans (hR.perm List.perm_append_comm)
      (hR.trans (hR.append_right hr l') (hR.perm List.perm_append_comm))
  exact hR.trans (hR.append_right hl r) hleft

/-- Several parts of a list at once. -/
theorem flatMap (hR : OrderFree R) {f g : β → List α} {l : List β}
    (h : ∀ b ∈ l, R (f b) (g b)) : R (l.flatMap f) (l.flatMap g) := by
  induction l with
  | nil => exact hR.perm (.refl _)
  | cons b l ih =>
    obtain ⟨hb, hl⟩ := List.forall_mem_cons.mp h
    exact hR.append hb (ih hl)

end OrderFree

/-! ## Operands as text -/

/-- A condition with the text of its operand. -/
def SubqueryFilter.shown : SubqueryFilter → SubqueryFilter
  | .comparison column op v => .comparison column op (.str v.display)
  | .nullTest column negated => .nullTest column negated

/-- A subquery with the texts of its operands. -/
def Subquery.shown (q : Subquery) : Subquery :=
  ⟨q.select, q.source, q.join, q.filters.map SubqueryFilter.shown⟩

namespace Predicate

mutual

/-- A predicate with the texts of its operands. -/
def shown : Predicate → Predicate
  | .comparison c column op v => .comparison c column op (.str v.display)
  | .nullTest c column negated => .nullTest c column negated
  | .group c inner ps => .group c inner (allShown ps)
  | .membership c base m q => .membership c base m q.shown

/-- Predicates with the texts of their operands. -/
def allShown : List Predicate → List Predicate
  | [] => []
  | p :: ps => p.shown :: allShown ps

end

theorem allShown_eq_map (ps : List Predicate) : allShown ps = ps.map shown := by
  induction ps with
  | nil => rw [allShown, List.map_nil]
  | cons p ps ih => rw [allShown, ih, List.map_cons]

/-! ## Rearrangements -/

/-- Predicates that differ in the order of siblings and of conditions. A step is taken at the front,
where the order of siblings brings any predicate. -/
inductive Rearranged : List Predicate → List Predicate → Prop
  /-- Siblings in another order. -/
  | siblings {ps qs : List Predicate} (h : ps.Perm qs) : Rearranged ps qs
  /-- A group whose members are rearranged. -/
  | group {ps qs : List Predicate} (c inner : Connective) (rest : List Predicate)
      (h : Rearranged ps qs) : Rearranged (.group c inner ps :: rest) (.group c inner qs :: rest)
  /-- A subquery with its conditions in another order. -/
  | conditions {fs gs : List SubqueryFilter} (c : Connective) (base : Column) (m : Membership)
      (select : Column) (source : String) (join : Option InnerJoin) (rest : List Predicate)
      (h : fs.Perm gs) :
      Rearranged (.membership c base m ⟨select, source, join, fs⟩ :: rest)
        (.membership c base m ⟨select, source, join, gs⟩ :: rest)
  /-- One after the other. -/
  | trans {ps qs rs : List Predicate} (h : Rearranged ps qs) (h' : Rearranged qs rs) :
      Rearranged ps rs

namespace Rearranged

variable {ps qs rs ss : List Predicate}

theorem refl (ps : List Predicate) : Rearranged ps ps := .siblings (.refl ps)

theorem symm (h : Rearranged ps qs) : Rearranged qs ps := by
  induction h with
  | siblings h => exact .siblings h.symm
  | group c inner rest _ ih => exact .group c inner rest ih
  | conditions c base m select source join rest h =>
    exact .conditions c base m select source join rest h.symm
  | trans _ _ ih ih' => exact ih'.trans ih

theorem length_eq (h : Rearranged ps qs) : ps.length = qs.length := by
  induction h with
  | siblings h => exact h.length_eq
  | group => rfl
  | conditions => rfl
  | trans _ _ ih ih' => exact ih.trans ih'

theorem append_right (h : Rearranged ps qs) (rs : List Predicate) :
    Rearranged (ps ++ rs) (qs ++ rs) := by
  induction h with
  | siblings h => exact .siblings (h.append_right rs)
  | group c inner rest h => exact .group c inner (rest ++ rs) h
  | conditions c base m select source join rest h =>
    exact .conditions c base m select source join (rest ++ rs) h
  | trans _ _ ih ih' => exact ih.trans ih'

theorem orderFree : OrderFree Rearranged := ⟨siblings, trans, append_right⟩

theorem append (h : Rearranged ps qs) (h' : Rearranged rs ss) :
    Rearranged (ps ++ rs) (qs ++ ss) :=
  orderFree.append h h'

end Rearranged

end Predicate

open Predicate (Rearranged)

/-! ## Subqueries -/

/-- Lists that look the same are the same to whatever only looks. -/
theorem map_eq_map_of_map_eq {α β γ : Type} {f : α → β} {g : α → γ} {l l' : List α}
    (hg : ∀ a ∈ l, ∀ b ∈ l', f a = f b → g a = g b) (h : l.map f = l'.map f) :
    l.map g = l'.map g := by
  induction l generalizing l' with
  | nil => rw [List.map_eq_nil_iff.mp h.symm]
  | cons a l ih =>
    cases l' with
    | nil => cases h
    | cons a' l' =>
      obtain ⟨ha, hl⟩ := List.cons.inj h
      have hrest : l.map g = l'.map g := ih (fun b hb c hc =>
        hg b (List.mem_cons_of_mem a hb) c (List.mem_cons_of_mem a' hc)) hl
      rw [List.map_cons, List.map_cons, hg a List.mem_cons_self a' List.mem_cons_self ha, hrest]

/-- The condition of a test can be seen from its view. -/
theorem Pending.shown_filter {p p' : Pending} (h : p.view = p'.view) :
    p.filter.shown = p'.filter.shown := by
  obtain ⟨⟨field, op, v⟩, c⟩ := p
  obtain ⟨⟨field', op', v'⟩, c'⟩ := p'
  have href : field.ref = field'.ref := congrArg View.ref h
  have hdisplay : v.display = v'.display := congrArg View.operand h
  obtain rfl : op = op' := congrArg View.op h
  have hnull : v.isNull = v'.isNull := by
    rw [Bool.eq_iff_iff, ← Value.display_eq_null, ← Value.display_eq_null, hdisplay]
  have hitem : (Value.list [v]).display = (Value.list [v']).display := by
    simp [Value.display, Value.displayList, hdisplay]
  simp only [RelatedTest.filter, hnull, href]
  split
  · rfl
  · cases op <;> simp [SubqueryFilter.shown, hdisplay, hitem]

theorem shown_subqueryOf (r : Relation) (m : Membership) (fs : List SubqueryFilter) :
    (subqueryOf r m fs).shown = subqueryOf r m (fs.map SubqueryFilter.shown) := by
  unfold subqueryOf Subquery.shown
  split
  · rfl
  · split
    · simp [SubqueryFilter.shown]
    · rfl

theorem rearranged_subqueryOf {fs gs : List SubqueryFilter} (h : fs.Perm gs) (c : Connective)
    (base : Column) (r : Relation) (m : Membership) :
    Rearranged [.membership c base m (subqueryOf r m fs)]
      [.membership c base m (subqueryOf r m gs)] := by
  unfold subqueryOf
  split
  · exact .conditions _ _ _ _ _ _ _ h
  · split
    · exact .conditions _ _ _ _ _ _ _ (h.append_right _)
    · exact .conditions _ _ _ _ _ _ _ h

section Subqueries

variable (c : Connective) (base : Column) (r : Relation)

/-- What a reader sees of the subquery of a partition, if its tests are joined by `c`. -/
def Partition.shown (q : Partition) : Predicate :=
  .membership c base q.membership (subqueryOf r q.membership (q.members.map (·.1.filter.shown)))

theorem map_shown_predicate {ts : List Pending} (hts : ∀ t ∈ ts, t.connective = c) :
    ((partitions c ts).map (·.predicate c base r)).map Predicate.shown =
      (partitions c ts).map (·.shown c base r) := by
  rw [List.map_map]
  refine List.map_congr_left fun q hq => ?_
  rw [Function.comp_apply, Partition.predicate, connective_of_mem_partitions hq hts,
    Predicate.shown, shown_subqueryOf, List.map_map]
  rfl

/-- The subquery of a partition can be seen from its view. -/
theorem Partition.shown_congr {q q' : Partition} (h : q.view = q'.view) :
    q.shown c base r = q'.shown c base r := by
  obtain ⟨role, members⟩ := q
  obtain ⟨role', members'⟩ := q'
  obtain ⟨hrole, hviews⟩ := Prod.mk.inj h
  obtain rfl : role = role' := hrole
  have hfilters : members.map (·.1.filter.shown) = members'.map (·.1.filter.shown) :=
    map_eq_map_of_map_eq (fun _ _ _ _ h => Pending.shown_filter h) hviews
  simp only [shown, hfilters]
  rfl

/-- Putting the members of a partition in order rearranges the conditions of its subquery. -/
theorem Partition.rearranged_sorted (q : Partition) :
    Rearranged [q.sorted.shown c base r] [q.shown c base r] :=
  rearranged_subqueryOf (q.sorted_members_perm.map _) c base r q.membership

theorem Pending.rearranged_partitions_and (ts : List Pending) :
    Rearranged ((partitions .and ts).map (·.shown c base r))
      ((placed ts).map (·.shown c base r)) := by
  have hsort : ((partitions .and ts).map (·.shown c base r)).Perm
      ((placed ts).map fun q => q.sorted.shown c base r) := by
    have hperm := (List.mergeSort_perm ((placed ts).map Partition.sorted) fun a b =>
      decide (a.firstIndex ≤ b.firstIndex)).map (·.shown c base r)
    rwa [List.map_map] at hperm
  refine (Rearranged.siblings hsort).trans ?_
  rw [List.map_eq_flatMap, List.map_eq_flatMap]
  exact Rearranged.orderFree.flatMap fun q _ => q.rearranged_sorted c base r

/-- The same tests on a relation in another order become rearranged subqueries. -/
theorem Pending.rearranged_partitions {ts ts' : List Pending} (h : ts.Perm ts')
    (hplain : ∀ p ∈ ts, '.' ∉ p.field.table.toList) :
    Rearranged ((partitions c ts).map (·.shown c base r))
      ((partitions c ts').map (·.shown c base r)) := by
  cases c with
  | or =>
    -- every test has a subquery of its own, and its position does not show there
    have hsingle : ∀ l : List Pending, (partitions .or l).map (·.shown .or base r) =
        l.map fun p => (Partition.single (p, 0)).shown .or base r := by
      intro l
      have hfst : (l.zipIdx.map Prod.fst).map
          (fun p => (Partition.single (p, 0)).shown .or base r) =
            l.map fun p => (Partition.single (p, 0)).shown .or base r := by
        rw [List.zipIdx_map_fst]
      rw [← hfst, partitions, List.map_map, List.map_map]
      rfl
    rw [hsingle, hsingle]
    exact .siblings (h.map _)
  | and =>
    have hplaced : (placed ts).map (·.shown .and base r) =
        (placed ts').map (·.shown .and base r) :=
      map_eq_map_of_map_eq (fun _ _ _ _ => Partition.shown_congr .and base r)
        (map_view_placed h (faithful_of_plain hplain))
    have hfirst := rearranged_partitions_and .and base r ts
    rw [hplaced] at hfirst
    exact hfirst.trans (rearranged_partitions_and .and base r ts').symm

end Subqueries

/-! ## Membership tests -/

/-- No table of a relation has a point in its name. -/
def Registry.PlainTables (registry : Registry) : Prop :=
  ∀ name relation, registry.get? name = some relation →
    '.' ∉ relation.target.toList ∧
      ∀ table, relation.joinTable? = some table → '.' ∉ table.toList

theorem RelatedField.Registered.plain {registry : Registry} {f : RelatedField}
    (h : f.Registered registry) (hplain : registry.PlainTables) : '.' ∉ f.table.toList := by
  obtain ⟨htarget, hjoin⟩ := hplain f.name f.relation h.found
  unfold RelatedField.table
  split
  · cases htable : f.relation.joinTable? with
    | none => exact htarget
    | some table => exact hjoin table htable
  · exact htarget

section Memberships

variable {registry : Registry} {ts ts' : List Pending}

/-- The same tests in another order have the same relations. -/
theorem perm_names (h : ts.Perm ts') :
    (ts.map (·.field.name)).eraseDups.Perm (ts'.map (·.field.name)).eraseDups := by
  rw [List.perm_ext_iff_of_nodup (nodup_eraseDups _) (nodup_eraseDups _)]
  intro name
  rw [List.mem_eraseDups, List.mem_eraseDups]
  exact (h.map _).mem_iff

theorem rearranged_bucket (hplain : registry.PlainTables) (hts : ∀ p ∈ ts, p.Sound registry)
    (h : ts.Perm ts') {c : Connective} (hc : ∀ p ∈ ts, p.connective = c) (base : Column)
    {name : String} (hname : ∀ p ∈ ts, p.field.name = name) :
    Rearranged (((⟨name, ts⟩ : Bucket).predicates c base).map Predicate.shown)
      (((⟨name, ts'⟩ : Bucket).predicates c base).map Predicate.shown) := by
  cases ts with
  | nil =>
    rw [h.nil_eq]
    exact .refl _
  | cons p rest =>
    cases ts' with
    | nil => cases h.eq_nil
    | cons p' rest' =>
      have hp : p ∈ p :: rest := List.mem_cons_self
      have hp' : p' ∈ p :: rest := h.mem_iff.mpr List.mem_cons_self
      have hrelation : p.field.relation = p'.field.relation :=
        (hts p hp).relation_eq (hts p' hp') ((hname p hp).trans (hname p' hp').symm)
      have hc' : ∀ q ∈ p' :: rest', q.connective = c := fun q hq => hc q (h.mem_iff.mpr hq)
      simp only [Bucket.predicates, hrelation]
      rw [map_shown_predicate c base p'.field.relation hc,
        map_shown_predicate c base p'.field.relation hc']
      exact Pending.rearranged_partitions c base p'.field.relation h fun q hq =>
        (hts q hq).registered.plain hplain

/-- The same tests on relations in another order become rearranged membership tests. -/
theorem rearranged_memberships (hplain : registry.PlainTables)
    (hts : ∀ p ∈ ts, p.Sound registry) (h : ts.Perm ts') {c : Connective}
    (hc : ∀ p ∈ ts, p.connective = c) (base : Column) :
    Rearranged (((buckets ts).flatMap (·.predicates c base)).map Predicate.shown)
      (((buckets ts').flatMap (·.predicates c base)).map Predicate.shown) := by
  rw [buckets, buckets, List.flatMap_map, List.flatMap_map, List.map_flatMap, List.map_flatMap]
  refine (Rearranged.siblings ((perm_names h).flatMap_right _)).trans ?_
  refine Rearranged.orderFree.flatMap fun name _ => ?_
  refine rearranged_bucket hplain (fun p hp => hts p (List.mem_of_mem_filter hp))
    (h.filter _) (fun p hp => hc p (List.mem_of_mem_filter hp)) base fun p hp => ?_
  exact beq_iff_eq.mp (List.mem_filter.mp hp).2

end Memberships

end DocFilter
