import DocFilter.CommandLine.Run
import DocFilter.Proofs.Compile.OneLine

/-!
# Comments after a statement

A plain report is a statement and, after it, comments that show parameters and diagnostics. A
comment ends with its line, but what it shows may go on: the lines that are no comments are the
later lines of operands and diagnostics (`runCompile_uncommented`). There are none if no key and no
string of the document breaks a line.
-/

namespace DocFilter.CommandLine

/-- The lines of a text, without their ends. The last line need not have an end. -/
def lines (text : String) : List (List Char) :=
  if (text.toList.splitOn '\n').getLast? = some [] then (text.toList.splitOn '\n').dropLast
  else text.toList.splitOn '\n'

/-- The lines of a text after its first. -/
def laterLines (text : String) : List (List Char) := (text.toList.splitOn '\n').tail

/-- Whether a line is a comment. -/
def isComment (line : List Char) : Bool := ['-', '-'].isPrefixOf line

/-- The lines that are no comments. -/
def uncommented (ls : List (List Char)) : List (List Char) := ls.filter (!isComment ·)

/-! ## Lines -/

theorem toList_unlines (texts : List String) :
    (unlines texts).toList = texts.flatMap fun t => t.toList ++ ['\n'] := by
  simp [unlines, String.toList_join, List.flatMap_map]

theorem splitOn_unlines (texts : List String) : (unlines texts).toList.splitOn '\n' =
    texts.flatMap (fun t => t.toList.splitOn '\n') ++ [[]] := by
  rw [toList_unlines]
  induction texts with
  | nil => rfl
  | cons t texts ih =>
    rw [List.flatMap_cons, List.append_assoc, List.singleton_append,
      List.splitOn_append_cons_self, ih, List.flatMap_cons, List.append_assoc]

theorem lines_unlines (texts : List String) :
    lines (unlines texts) = texts.flatMap fun t => t.toList.splitOn '\n' := by
  rw [lines, splitOn_unlines, if_pos List.getLast?_concat, List.dropLast_concat]

theorem laterLines_eq_nil {text : String} (h : OneLine text) : laterLines text = [] := by
  rw [laterLines, List.splitOn_eq_singleton h, List.tail_cons]

theorem splitOn_append_of_notMem {xs : List Char} (h : '\n' ∉ xs) (ys : List Char) :
    (xs ++ ys).splitOn '\n' = (ys.splitOn '\n').modifyHead (xs ++ ·) := by
  induction xs with
  | nil =>
    rw [List.nil_append]
    cases ys.splitOn '\n' <;> rfl
  | cons x xs ih =>
    obtain ⟨hx, hxs⟩ := not_or.mp (mt List.mem_cons.mpr h)
    rw [List.cons_append, List.splitOn_cons_eq_if_modifyHead, if_neg (by simpa using Ne.symm hx),
      ih hxs]
    cases ys.splitOn '\n' <;> rfl

/-! ## Comments -/

theorem uncommented_append (xs ys : List (List Char)) :
    uncommented (xs ++ ys) = uncommented xs ++ uncommented ys := List.filter_append ..

theorem uncommented_flatMap {α : Type} (xs : List α) (g : α → List (List Char)) :
    uncommented (xs.flatMap g) = xs.flatMap fun x => uncommented (g x) := List.filter_flatMap ..

theorem uncommented_eq_nil {ls : List (List Char)} :
    uncommented ls = [] ↔ ∀ line ∈ ls, isComment line = true := by
  simp [uncommented]

/-- What begins as a comment is one up to the end of its first line. -/
theorem uncommented_start {start : String} (hstart : OneLine start)
    (hcomment : isComment start.toList = true) (text : String) :
    uncommented ((start ++ text).toList.splitOn '\n') = uncommented (laterLines text) := by
  obtain ⟨line, later, hsplit⟩ := List.exists_cons_of_ne_nil (List.splitOn_ne_nil '\n' text.toList)
  have hfirst : isComment (start.toList ++ line) = true := by
    rw [isComment, List.isPrefixOf_iff_prefix] at hcomment ⊢
    exact hcomment.trans (List.prefix_append _ _)
  rw [String.toList_append, splitOn_append_of_notMem hstart, laterLines, hsplit]
  simp [uncommented, hfirst]

theorem uncommented_paramLine (v : Value) (index : Nat) :
    uncommented ((paramLine v index).toList.splitOn '\n') =
      uncommented (laterLines v.display) := by
  have hpad : OneLine (padRight 4 (toString (index + 1))) := by
    rw [padRight, oneLine_append]
    exact ⟨oneLine_toString_nat _, by simp⟩
  refine uncommented_start ?_ ?_ _
  · rw [oneLine_append, oneLine_append]
    exact ⟨⟨by decide, hpad⟩, by decide⟩
  · simp [isComment]

theorem uncommented_paramLines (params : List Value) :
    uncommented ((paramLines params).flatMap fun t => t.toList.splitOn '\n') =
      uncommented ((params.map Value.display).flatMap laterLines) := by
  cases params with
  | nil => rfl
  | cons v vs =>
    have hheading : uncommented ("-- params:".toList.splitOn '\n') = [] := by decide
    have hlines : paramLines (v :: vs) =
        "-- params:" :: (v :: vs).zipIdx.map fun m => paramLine m.1 m.2 := rfl
    have hshown : (v :: vs).map Value.display = (v :: vs).zipIdx.map fun m => m.1.display := by
      rw [show (fun m : Value × Nat => m.1.display) = Value.display ∘ Prod.fst from rfl,
        ← List.map_map, List.zipIdx_map_fst]
    rw [hlines, List.flatMap_cons, uncommented_append, hheading, List.nil_append, hshown,
      List.flatMap_map, List.flatMap_map, uncommented_flatMap, uncommented_flatMap]
    simp only [uncommented_paramLine]

theorem uncommented_skipped (diagnostics : List Diagnostic) :
    uncommented ((diagnostics.map ("-- skipped: " ++ ·.message)).flatMap
        fun t => t.toList.splitOn '\n') =
      uncommented ((diagnostics.map Diagnostic.message).flatMap laterLines) := by
  have hline : ∀ d : Diagnostic, uncommented (("-- skipped: " ++ d.message).toList.splitOn '\n') =
      uncommented (laterLines d.message) :=
    fun d => uncommented_start (by decide) (by decide) d.message
  rw [List.flatMap_map, List.flatMap_map, uncommented_flatMap, uncommented_flatMap]
  simp only [hline]

/-- What comes after the statement in a plain report. -/
def comments (s : Sql.Statement) (f : CompiledFilter) : String :=
  unlines (paramLines s.params ++ f.diagnostics.map ("-- skipped: " ++ ·.message))

theorem plainReport_eq (s : Sql.Statement) (f : CompiledFilter) :
    plainReport s f = s.sql ++ "\n" ++ comments s f := by
  rw [plainReport, comments, unlines, unlines, List.cons_append, List.map_cons, String.join_cons]

theorem uncommented_comments (s : Sql.Statement) (f : CompiledFilter) :
    uncommented (lines (comments s f)) =
      uncommented ((s.params.map Value.display ++ f.diagnostics.map Diagnostic.message).flatMap
        laterLines) := by
  rw [comments, lines_unlines, List.flatMap_append, uncommented_append, uncommented_paramLines,
    uncommented_skipped, List.flatMap_append, uncommented_append]

/-! ## Runs -/

section

variable {files : String → Option String} {a : CompileArguments}

/-- A plain run that does not fail compiles a filter and prints its plain report. -/
theorem exists_of_runCompile (hplain : a.json = false) (h : (runCompile files a).failure = none) :
    ∃ inputs f, loadInputs files a = .ok inputs ∧
      (compile ⟨a.strict, a.marker, a.baseKey⟩ inputs.registry a.table inputs.document).result =
        .ok f ∧
      (runCompile files a).output = plainReport (f.select.statement inputs.dialect) f := by
  unfold runCompile at h ⊢
  cases hinputs : loadInputs files a with
  | error e => simp [hinputs] at h
  | ok inputs =>
    simp only [hinputs] at h
    cases hresult : (compile ⟨a.strict, a.marker, a.baseKey⟩ inputs.registry a.table
        inputs.document).result with
    | error e => simp [hresult] at h
    | ok f => exact ⟨inputs, f, rfl, hresult, by simp [hresult, hplain]⟩

end

/-- A run that prints a plain report prints a statement and then comments, apart from the later
lines of operands and diagnostics. -/
theorem runCompile_uncommented (files : String → Option String) (a : CompileArguments)
    (hplain : a.json = false) (h : (runCompile files a).failure = none) :
    ∃ inputs f after, loadInputs files a = .ok inputs ∧
      (compile ⟨a.strict, a.marker, a.baseKey⟩ inputs.registry a.table inputs.document).result =
        .ok f ∧
      (runCompile files a).output = (f.select.statement inputs.dialect).sql ++ "\n" ++ after ∧
      uncommented (lines after) =
        uncommented (((f.select.statement inputs.dialect).params.map Value.display ++
          f.diagnostics.map Diagnostic.message).flatMap laterLines) ∧
      ((∀ t ∈ inputs.document.texts, OneLine t) → ∀ line ∈ lines after, isComment line = true) := by
  obtain ⟨inputs, f, hinputs, hresult, houtput⟩ := exists_of_runCompile hplain h
  rw [plainReport_eq] at houtput
  have hlines := uncommented_comments (f.select.statement inputs.dialect) f
  refine ⟨inputs, f, _, hinputs, hresult, houtput, hlines, fun htexts => ?_⟩
  obtain ⟨hparams, hdiagnostics⟩ := compile_oneLine hresult htexts
  have hlater : (((f.select.statement inputs.dialect).params.map Value.display ++
      f.diagnostics.map Diagnostic.message).flatMap laterLines) = [] := by
    refine List.flatMap_eq_nil_iff.mpr (List.forall_mem_append.mpr ⟨?_, ?_⟩)
    · exact List.forall_mem_map.mpr fun v hv => laterLines_eq_nil (hparams inputs.dialect v hv)
    · exact List.forall_mem_map.mpr fun x hx => laterLines_eq_nil (hdiagnostics x hx)
  exact uncommented_eq_nil.mp (hlines.trans (congrArg uncommented hlater))

/-! ### Posts with hostile titles -/

namespace Posted

/-- Compiles a filter on posts for a database without relations. -/
def arguments (filter : String) : CompileArguments :=
  ⟨"posts", none, some filter, none, "postgres", false, '$', "id", false⟩

/-- What is printed for a filter on posts. -/
def outcome (filter : String) : Outcome := runCompile (fun _ => none) (arguments filter)

/-- The operand has a backslash before its `n`, and no line end. -/
def escaped : String := "\x7b\"title\":\"a\\\\nDROP TABLE posts;\",\"$b\":1\x7d"

/-- The operand has a line end. -/
def operand : String := "\x7b\"title\":\"a\\nDROP TABLE posts;\"\x7d"

/-- A key has a line end. -/
def key : String := "\x7b\"$a\\nb\":1\x7d"

end Posted

theorem runCompile_uncommented_escaped :
    (Posted.outcome Posted.escaped).failure = none ∧
    ∃ inputs f after,
      loadInputs (fun _ => none) (Posted.arguments Posted.escaped) = .ok inputs ∧
      (compile {} inputs.registry "posts" inputs.document).result = .ok f ∧
      (Posted.outcome Posted.escaped).output =
        (f.select.statement inputs.dialect).sql ++ "\n" ++ after ∧
      ∀ line ∈ lines after, isComment line = true := by
  have hok : (Posted.outcome Posted.escaped).failure = none := by decide +kernel
  have hload : (loadInputs (fun _ => none) (Posted.arguments Posted.escaped)).toOption.map
      (·.document.texts) = some ["title", "a\\nDROP TABLE posts;", "$b"] := by decide +kernel
  obtain ⟨inputs, f, after, hinputs, hresult, houtput, -, hcomments⟩ :=
    runCompile_uncommented _ (Posted.arguments Posted.escaped) rfl hok
  -- the document is only known as what the run has read
  rw [hinputs] at hload
  have htexts : inputs.document.texts = ["title", "a\\nDROP TABLE posts;", "$b"] :=
    Option.some.inj hload
  refine ⟨hok, inputs, f, after, hinputs, hresult, houtput, hcomments ?_⟩
  rw [htexts]
  decide

/-- An operand or a key that ends its line puts what follows outside the comment. -/
theorem runCompile_breaks_comment :
    ((Posted.outcome Posted.operand).failure = none ∧
      (Posted.outcome Posted.operand).output =
        "SELECT \"posts\".* FROM \"posts\" WHERE (\"posts\".\"title\" = $1)" ++ "\n" ++
          "-- params:\n--   1    'a\nDROP TABLE posts;'\n" ∧
      "DROP TABLE posts;'".toList ∈ lines "-- params:\n--   1    'a\nDROP TABLE posts;'\n" ∧
      isComment "DROP TABLE posts;'".toList = false) ∧
    ((Posted.outcome Posted.key).failure = none ∧
      (Posted.outcome Posted.key).output = "SELECT \"posts\".* FROM \"posts\"" ++ "\n" ++
        "-- skipped: unrecognized operator `$a\nb` at `$a\nb`\n" ∧
      "b`".toList ∈ lines "-- skipped: unrecognized operator `$a\nb` at `$a\nb`\n" ∧
      isComment "b`".toList = false) := by
  decide +kernel

end DocFilter.CommandLine
