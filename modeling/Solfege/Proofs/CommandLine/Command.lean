import Solfege.CommandLine.Program
import Solfege.Proofs.CommandLine.Arguments

/-! Coming to a command. A command whose parameters were all given as they should be acts on them,
and the program runs the command that it is named. -/
namespace Solfege.CommandLine
variable {name text : String} {arguments : List String}

theorem forM_ok {names : List String} {check : String → Except UsageFault Unit}
    (passes : ∀ name ∈ names, check name = .ok ()) : names.forM check = .ok () := by
  induction names with
  | nil => rfl
  | cons name rest ih =>
    have first := passes name (by simp)
    have others := ih fun name here => passes name (by simp [here])
    rw [List.forM_eq_forM] at others ⊢
    rw [List.forM_cons, first]
    exact others

/-- With one argument and parameters that can be read, nothing else is asked for. -/
theorem command_eq {help : Help} {spellings : List Spelling} {options : List String}
    {action : Parsed → Except UsageFault Outcome} {parsed : Parsed} {outcome : Outcome}
    (apart : parse spellings true arguments = .ok parsed)
    (asked : parsed.flag? "--help" ≠ some true) (given : parsed.others = [text])
    (passes : ∀ parameter ∈ name :: options ++ spellings.map Spelling.option,
      checkParameter parsed parameter = .ok ())
    (acts : action parsed = .ok outcome) :
    command help spellings (some name) options action arguments = outcome := by
  have spelled : (parsed.options.map (·.1)).forM (checkParameter parsed) = .ok () := by
    refine forM_ok fun parameter here => ?_
    obtain ⟨option, there, rfl⟩ := List.mem_map.mp here
    obtain ⟨spelling, known, same⟩ := parse_known apart option there
    exact same ▸ passes _ (List.mem_append_right _ (List.mem_map_of_mem known))
  have argued : [name].forM (checkParameter parsed) = .ok () :=
    forM_ok fun parameter here => passes _ (by simp [List.mem_singleton.mp here])
  have others : options.forM (checkParameter parsed) = .ok () :=
    forM_ok fun parameter here => passes _ (by simp [here])
  have left : parsed.others.drop 1 = [] := by rw [given]; rfl
  have checked : checkAll parsed (some name) options = .ok () := by
    rw [checkAll, spelled]
    dsimp only [Bind.bind, Except.bind, Option.toList, List.length]
    rw [argued]
    dsimp only
    rw [others]
    dsimp only
    rw [left]
    rfl
  rw [command, apart]
  dsimp only
  rw [if_neg asked, checked]
  dsimp only [Bind.bind, Except.bind]
  rw [acts]

/-- The program runs the command of a name that is no option. -/
theorem run_command (disk : Disk) (numbers : List Int) {flags : List String}
    (verbose : flags = [] ∨ flags = ["-v"]) (word : name ≠ "--")
    (plain : name.toList.head? ≠ some '-') (arguments : List String) :
    ∃ setting : Setting, setting.disk = disk ∧ setting.numbers = numbers ∧
      ∀ command, (commands setting).lookup name = some command →
        run disk numbers (flags ++ name :: arguments) = (command arguments).unstyled := by
  have named : parse programSpellings false (name :: arguments) =
      .ok ⟨[], name :: arguments⟩ := by
    unfold parse
    rw [if_neg word, if_neg (fun dash => plain dash.1), if_neg (by decide)]
    rfl
  rcases verbose with rfl | rfl
  · refine ⟨⟨false, disk, numbers⟩, rfl, rfl, fun command found => ?_⟩
    have notice : notice? ⟨[], name :: arguments⟩ = none := rfl
    have verbose : decide ((⟨[], name :: arguments⟩ : Parsed).flag? "--verbose" = some true) =
      false := rfl
    rw [List.nil_append, run, named]
    dsimp only
    rw [List.isEmpty_cons, if_neg (by decide), notice, Option.getD_none, dispatch]
    dsimp only
    rw [verbose, found]
  · refine ⟨⟨true, disk, numbers⟩, rfl, rfl, fun command found => ?_⟩
    have read : readOption programSpellings "-v".toList =
      .ok ([("--verbose", .flag true)], none) := rfl
    have apart : parse programSpellings false ("-v" :: name :: arguments) =
        .ok ⟨[("--verbose", .flag true)], name :: arguments⟩ := by
      unfold parse
      rw [if_neg (by decide), if_pos (by decide), read]
      dsimp only
      rw [named]
      rfl
    have notice : notice? ⟨[("--verbose", .flag true)], name :: arguments⟩ = none := rfl
    have verbose : decide ((⟨[("--verbose", .flag true)], name :: arguments⟩ : Parsed).flag?
      "--verbose" = some true) = true := rfl
    rw [List.cons_append, List.nil_append, run, apart]
    dsimp only
    rw [List.isEmpty_cons, if_neg (by decide), notice, Option.getD_none, dispatch]
    dsimp only
    rw [verbose, found]

end Solfege.CommandLine
