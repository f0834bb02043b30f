import DocFilter.Proofs.Field.Resolution

/-!
# What a path refers to

A path is looked up by its first segment and the text after it. `Field.Denotes` lists all that a
path can refer to: nothing if a segment is empty, a column of the base table if there is one segment
or the first is the base table, else a column of the relation of that name, else one of the join
table of that name, else an unknown relation. The lookup finds just that
(`Field.resolve_eq_iff_denotes`).
-/

namespace DocFilter

namespace Field

/-! ## The first segment and the text after it -/

/-- A path with a second segment: its first one, and the text after the first point. -/
structure Leads (path head rest : String) : Prop where
  text : path = head ++ "." ++ rest
  undotted : '.' ∉ head.toList

theorem Leads.toList_eq {path head rest : String} (h : Leads path head rest) :
    path.toList = head.toList ++ '.' :: rest.toList := by
  rw [h.text]
  simp

theorem cut?_eq_some_iff {path head rest : String} :
    cut? path = some (head, rest) ↔ Leads path head rest := by
  constructor
  · intro h
    obtain ⟨hpoint, hpath⟩ := eq_append_of_cut?_eq_some h
    refine ⟨String.toList_injective ?_, hpoint⟩
    rw [hpath]
    simp
  · intro h
    have hbefore : ∀ c ∈ head.toList, (c != '.') = true := by
      intro c hc
      exact bne_iff_ne.mpr fun heq => h.undotted (heq ▸ hc)
    have hdrop : path.toList.dropWhile (· != '.') = '.' :: rest.toList := by
      rw [h.toList_eq, List.dropWhile_append_of_pos hbefore]
      simp
    have htake : path.toList.takeWhile (· != '.') = head.toList := by
      rw [h.toList_eq, List.takeWhile_append_of_pos hbefore]
      simp
    simp [cut?, hdrop, htake]

/-- A path either has one segment, or a first one and a text after it. -/
theorem cut?_eq_none_iff {path : String} : cut? path = none ↔ segments path = [path] := by
  refine ⟨segments_of_cut?_eq_none, fun h => ?_⟩
  cases hcut : cut? path with
  | none => rfl
  | some parts =>
    have hsegments := segments_of_cut?_eq_some hcut
    rw [h, List.cons.injEq] at hsegments
    exact absurd hsegments.2.symm (segments_ne_nil parts.2)

theorem segments_of_undotted {s : String} (h : '.' ∉ s.toList) : segments s = [s] := by
  rw [segments, List.splitOn_eq_singleton h]
  simp

theorem Leads.segments_eq {path head rest : String} (h : Leads path head rest) :
    segments path = head :: segments rest :=
  segments_of_cut?_eq_some (cut?_eq_some_iff.mpr h)

/-! ## Denotation -/

/-- What a path refers to in a filter on a base table, or the error about it. -/
inductive Denotes (registry : Registry) (base path : String) : Except FilterError Field → Prop
  | malformed (empty : "" ∈ segments path) :
      Denotes registry base path (.error (.malformed path (emptyReason path)))
  | column (whole : "" ∉ segments path) (single : segments path = [path]) :
      Denotes registry base path (.ok (.own ⟨base, path⟩))
  | own {rest : String} (whole : "" ∉ segments path) (leads : Leads path base rest) :
      Denotes registry base path (.ok (.own ⟨base, rest⟩))
  | target {head rest : String} {f : RelatedField} (whole : "" ∉ segments path)
      (leads : Leads path head rest) (foreign : head ≠ base) (name : f.name = head)
      (found : registry.get? head = some f.relation) (side : f.onJoinTable = false)
      (ref : f.ref = ⟨f.relation.target, rest⟩) : Denotes registry base path (.ok (.related f))
  | joinTable {head rest : String} {f : RelatedField} (whole : "" ∉ segments path)
      (leads : Leads path head rest) (foreign : head ≠ base) (unnamed : registry.get? head = none)
      (found : registry.get? f.name = some f.relation)
      (owns : f.relation.joinTable? = some head) (side : f.onJoinTable = true)
      (ref : f.ref = ⟨head, rest⟩) : Denotes registry base path (.ok (.related f))
  | unknown {head rest : String} (whole : "" ∉ segments path) (leads : Leads path head rest)
      (foreign : head ≠ base) (unnamed : registry.get? head = none)
      (unowned : ∀ name relation, registry.get? name = some relation →
        relation.joinTable? ≠ some head) :
      Denotes registry base path (.error (.unknownRelation head path))

section Lookup

variable {registry : Registry} {base path head rest : String}

theorem lookup?_of_get? {relation : Relation} (h : registry.get? head = some relation)
    (column : String) : lookup? registry head column = some ⟨head, relation, column, false⟩ := by
  simp [lookup?, h]

theorem lookup?_of_byJoinTable? {name : String} {relation : Relation}
    (h : registry.get? head = none) (hjoin : registry.byJoinTable? head = some (name, relation))
    (column : String) : lookup? registry head column = some ⟨name, relation, column, true⟩ := by
  simp [lookup?, h, hjoin]

theorem resolve_of_leads (hleads : Leads path head rest) (hwhole : "" ∉ segments path)
    (hforeign : head ≠ base) :
    resolve registry base path =
      (lookup? registry head rest).elim (.error (.unknownRelation head))
        fun f => .ok (.related f) := by
  rw [resolve_of_cut?_eq_some (cut?_eq_some_iff.mpr hleads) hwhole, if_neg hforeign]

/-- The lookup finds something that the path refers to. -/
theorem denotes_resolve (h : registry.Indexed) (base path : String) :
    Denotes registry base path
      ((resolve registry base path).mapError (Failure.toError path)) := by
  by_cases hempty : "" ∈ segments path
  · rw [resolve_of_mem_segments hempty]
    exact .malformed hempty
  · cases hcut : cut? path with
    | none =>
      rw [resolve_of_cut?_eq_none hcut hempty]
      exact .column hempty (cut?_eq_none_iff.mp hcut)
    | some parts =>
      obtain ⟨head, rest⟩ := parts
      have hleads := cut?_eq_some_iff.mp hcut
      by_cases hbase : head = base
      · subst hbase
        rw [resolve_of_cut?_eq_some hcut hempty, if_pos rfl]
        exact .own hempty hleads
      · rw [resolve_of_leads hleads hempty hbase]
        cases hget : registry.get? head with
        | some relation =>
          rw [lookup?_of_get? hget]
          exact .target hempty hleads hbase rfl hget rfl rfl
        | none =>
          cases hjoin : registry.byJoinTable? head with
          | some owner =>
            obtain ⟨name, relation⟩ := owner
            obtain ⟨hfound, howns⟩ := (h.byJoinTable?_iff head name relation).mp hjoin
            rw [lookup?_of_byJoinTable? hget hjoin]
            refine .joinTable hempty hleads hbase hget hfound howns rfl ?_
            simp [RelatedField.ref, RelatedField.table, howns]
          | none =>
            rw [lookup?_eq_none_iff.mpr ⟨hget, hjoin⟩]
            exact .unknown hempty hleads hbase hget ((h.byJoinTable?_eq_none_iff head).mp hjoin)

/-- A column that belongs to a relation is known by its relation, its side and its reference. -/
theorem eq_of_ref {f : RelatedField} {name table : String} {side : Bool} (hname : f.name = name)
    (hside : f.onJoinTable = side) (href : f.ref = ⟨table, rest⟩) :
    f = ⟨name, f.relation, rest, side⟩ := by
  have hcolumn : f.column = rest := congrArg Column.name href
  obtain ⟨n, relation, column, onJoinTable⟩ := f
  cases hname
  cases hside
  cases hcolumn
  rfl

/-- A path refers to nothing but what the lookup finds. -/
theorem Denotes.resolve_eq (h : registry.Indexed) {result : Except FilterError Field}
    (hd : Denotes registry base path result) :
    (resolve registry base path).mapError (Failure.toError path) = result := by
  cases hd with
  | malformed hempty =>
    rw [resolve_of_mem_segments hempty]
    rfl
  | column hwhole hsingle =>
    rw [resolve_of_cut?_eq_none (cut?_eq_none_iff.mpr hsingle) hwhole]
    rfl
  | own hwhole hleads =>
    rw [resolve_of_cut?_eq_some (cut?_eq_some_iff.mpr hleads) hwhole, if_pos rfl]
    rfl
  | target hwhole hleads hforeign hname hfound hside href =>
    rw [resolve_of_leads hleads hwhole hforeign, lookup?_of_get? hfound]
    rw [eq_of_ref hname hside href]
    rfl
  | joinTable hwhole hleads hforeign hunnamed hfound howns hside href =>
    have hjoin := (h.byJoinTable?_iff _ _ _).mpr ⟨hfound, howns⟩
    rw [resolve_of_leads hleads hwhole hforeign, lookup?_of_byJoinTable? hunnamed hjoin]
    rw [eq_of_ref rfl hside href]
    rfl
  | unknown hwhole hleads hforeign hunnamed hunowned =>
    have hjoin := (h.byJoinTable?_eq_none_iff _).mpr hunowned
    rw [resolve_of_leads hleads hwhole hforeign, lookup?_eq_none_iff.mpr ⟨hunnamed, hjoin⟩]
    rfl

/-- The lookup of a path gives just what the path refers to. A column of the base table can be
written with the table or without it. -/
theorem resolve_eq_iff_denotes (h : registry.Built) (base : String) :
    (∀ path result, (resolve registry base path).mapError (Failure.toError path) = result ↔
      Denotes registry base path result) ∧
    ∀ column, base ≠ "" → '.' ∉ base.toList → column ≠ "" → '.' ∉ column.toList →
      resolve registry base (base ++ "." ++ column) = .ok (.own ⟨base, column⟩) ∧
        resolve registry base column = .ok (.own ⟨base, column⟩) := by
  have hindexed := h.consistent.indexed
  constructor
  · intro path result
    refine ⟨fun hresult => ?_, fun hd => hd.resolve_eq hindexed⟩
    rw [← hresult]
    exact denotes_resolve hindexed base path
  · intro column hbase hbasePoint hcolumn hcolumnPoint
    have hsegments := segments_of_undotted hcolumnPoint
    have hleads : Leads (base ++ "." ++ column) base column := ⟨rfl, hbasePoint⟩
    have hwhole : "" ∉ segments column := by
      rw [hsegments, List.mem_singleton]
      exact Ne.symm hcolumn
    have hwholePath : "" ∉ segments (base ++ "." ++ column) := by
      rw [hleads.segments_eq, List.mem_cons, not_or]
      exact ⟨Ne.symm hbase, hwhole⟩
    constructor
    · rw [resolve_of_cut?_eq_some (cut?_eq_some_iff.mpr hleads) hwholePath, if_pos rfl]
    · exact resolve_of_cut?_eq_none (cut?_eq_none_iff.mpr hsegments) hwhole registry base

end Lookup

end Field

/-! ### Posts and their revisions -/

namespace Blog

/-- The revisions of a post. -/
def revisions : Relation where
  target := "revisions"
  link := .oneToMany "post_id"

/-- The registry with revisions under the name of the base table. -/
def revised : Registry :=
  ⟨⟨[("comments", comments), ("posts", revisions), ("tags", tags)]⟩, ⟨[("posts_tags", "tags")]⟩⟩

theorem built_revised : revised.Built :=
  .register built_registry (show registry.register "posts" revisions = .ok revised by decide)

end Blog

theorem Field.resolve_eq_iff_denotes_revised :
    Blog.revised.Built ∧
    Denotes Blog.revised "posts" "posts_tags.day.month"
      (.ok (.related ⟨"tags", Blog.tags, "day.month", true⟩)) ∧
    Denotes Blog.revised "revisions" "posts.author"
      (.ok (.related ⟨"posts", Blog.revisions, "author", false⟩)) ∧
    resolve Blog.revised "posts" ("posts" ++ "." ++ "author") =
      .ok (.own ⟨"posts", "author"⟩) := by
  obtain ⟨hposts, hauthor⟩ := resolve_eq_iff_denotes Blog.built_revised "posts"
  obtain ⟨hrevisions, -⟩ := resolve_eq_iff_denotes Blog.built_revised "revisions"
  have hmonth : resolve Blog.revised "posts" "posts_tags.day.month" =
      .ok (.related ⟨"tags", Blog.tags, "day.month", true⟩) := by decide +kernel
  have hforeign : resolve Blog.revised "revisions" "posts.author" =
      .ok (.related ⟨"posts", Blog.revisions, "author", false⟩) := by decide +kernel
  refine ⟨Blog.built_revised, (hposts _ _).mp ?_, (hrevisions _ _).mp ?_, ?_⟩
  · rw [hmonth]
    rfl
  · rw [hforeign]
    rfl
  · exact (hauthor "author" (by decide) (by decide) (by decide) (by decide)).1

end DocFilter
