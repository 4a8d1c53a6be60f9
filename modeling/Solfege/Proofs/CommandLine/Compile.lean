import Solfege.Proofs.CommandLine.Command
import Solfege.Proofs.Shorthand.Playing

/-! The compile command. Whatever the text and whatever transposition is accepted, it prints a line
for each note or says that there is none; nothing in between goes wrong. -/
namespace Solfege

namespace Pitch

theorem frequency_eq {number a4 : Number} {octaves ratio x : Binary64}
    (above : octavesAboveA number = .ok octaves) (power : octaves.powerOfTwo? = some ratio)
    (real : a4.toReal = .ok x) : frequency number a4 = .ok (x * ratio) := by
  rw [frequency, above]
  dsimp only [Bind.bind, Except.bind]
  rw [power, real]
  rfl

theorem frequencyOf_eq {name : String} {number : Int} (named : numberOf name = .ok number)
    (a4 : Number) : frequencyOf name a4 = frequency (.whole number) a4 := by
  rw [frequencyOf, named]
  exact pure_bind number fun n => frequency (.whole n) a4

/-- Names around those that are printed have frequencies. -/
theorem frequencyOf_ok {name : String} {number : Int} (named : numberOf name = .ok number)
    (above : -62 ≤ number) (below : number ≤ 181) : ∃ x, frequencyOf name concertPitch = .ok x := by
  have powers : ∀ k < 244, ((octavesAboveA (.whole ((k : Nat) - 62 : Int))).toOption.any
      fun octaves => octaves.powerOfTwo?.isSome) = true := by
    decide +kernel
  have power := powers (number + 62).toNat (by omega)
  have same : ((number + 62).toNat : Int) - 62 = number := by omega
  rw [same] at power
  cases octaves : octavesAboveA (.whole number) with
  | error fault =>
    rw [octaves] at power
    cases power
  | ok x =>
    rw [octaves] at power
    obtain ⟨ratio, found⟩ := Option.isSome_iff_exists.mp power
    rw [frequencyOf_eq named]
    exact ⟨_, frequency_eq octaves found rfl⟩

end Pitch

namespace CommandLine
open Shorthand
variable {event : Event} {music : Music} {text : String} {transposition : Transposition}

theorem eventLine_single (single : event.Single (-62) 181) :
    ∃ line, eventLine event = .ok (line ++ "\n") ∧ Text.Plain line.toList := by
  obtain ⟨x, time⟩ := single.time
  obtain ⟨name, number, sound, plain, named, least, most⟩ := single.sound
  obtain ⟨code, length, valid⟩ := single.length
  obtain ⟨hertz, frequency⟩ := Pitch.frequencyOf_ok named least most
  have codes : ∀ code ∈ durations, Text.Plain code := by decide
  have frequencies : (Sound.single name).names.mapM (fun name => do
      return Numeral.fixed 2 (← Pitch.frequencyOf name Pitch.concertPitch)) =
        .ok [Numeral.fixed 2 hertz] := by
    rw [Sound.names, List.mapM_cons, List.mapM_nil, frequency]
    rfl
  have unit : " Hz" ++ "\n" = " Hz\n" := by decide
  have ends (line : String) : line ++ " Hz" ++ "\n" = line ++ " Hz\n" := by
    rw [String.append_assoc, unit]
  refine ⟨Numeral.alignRight 7 (Numeral.fixed 3 x) ++ "s  " ++ Numeral.alignLeft 6 name ++ " " ++
    Numeral.alignLeft 5 code ++ " " ++ Numeral.fixed 2 hertz ++ " Hz", ?_, ?_⟩
  · rw [eventLine, time, sound, length, frequencies, ends]
    rfl
  · have places := Numeral.plain_alignRight 7 (Numeral.plain_fixed 3 x)
    have names := Numeral.plain_alignLeft 6 plain
    have lengths := Numeral.plain_alignLeft 5 (codes _ valid)
    have hertzes := Numeral.plain_fixed 2 hertz
    have blank : Text.Plain " ".toList := by decide
    have seconds : Text.Plain "s  ".toList := by decide
    have unit : Text.Plain " Hz".toList := by decide
    exact ((((((places.join seconds).join names).join blank).join lengths).join blank).join
      hertzes).join unit

theorem mapM_eventLine (single : ∀ event ∈ music, event.Single (-62) 181) :
    ∃ lines : List String, music.mapM eventLine = .ok (lines.map (· ++ "\n")) ∧
      lines.length = music.length ∧ ∀ line ∈ lines, Text.Plain line.toList := by
  induction music with
  | nil => exact ⟨[], rfl, rfl, by simp⟩
  | cons event rest ih =>
    obtain ⟨line, first, plain⟩ := eventLine_single (single event (by simp))
    obtain ⟨lines, others, size, plains⟩ := ih fun event here => single event (by simp [here])
    refine ⟨line :: lines, ?_, ?_, List.forall_mem_cons.mpr ⟨plain, plains⟩⟩
    · rw [List.mapM_cons, first, others]
      rfl
    · rw [List.length_cons, List.length_cons, size]

/-- A transposition by no more than two octaves. -/
def Small (transposition : Transposition) : Prop :=
  ∀ chance, -24 ≤ (transposition.resolve chance).1 ∧ (transposition.resolve chance).1 ≤ 24

theorem readTransposition_small (given : readTransposition text = .ok transposition) :
    Small transposition := by
  intro chance
  unfold readTransposition at given
  split at given
  · cases given
    have span : (6 : Int) - -5 + 1 = 12 := by decide
    simp only [Transposition.resolve, Chance.draw, span]
    omega
  · split at given
    · cases given
    · split at given
      · cases given
      · cases given
        simp only [Transposition.resolve]
        omega

theorem transpositionOf_small {parsed : Parsed}
    (given : transpositionOf parsed = .ok transposition) : Small transposition := by
  unfold transpositionOf optionValue at given
  split at given
  · cases given
    intro chance
    simp [Transposition.resolve]
  · rename_i text _
    cases read : readTransposition text with
    | error reason =>
      rw [read] at given
      cases given
    | ok shift =>
      rw [read] at given
      cases given
      exact readTransposition_small read

/-- The music of a text is that of its notes, if there are any, within the range of the printed
names. -/
theorem musicOf_cases (setting : Setting) (text : String)
    (small : Small transposition) :
    (accepted text = [] ∧ ∃ said, musicOf setting text transposition =
      .error (.failure said "No notes found in the input.")) ∨
    (accepted text ≠ [] ∧ ∃ music said, musicOf setting text transposition = .ok (music, said) ∧
      music.length = (accepted text).length ∧ ∀ event ∈ music, event.Single (-62) 181) := by
  obtain ⟨music, compiled, _, sounds⟩ := compile_ok text
  have single := single_of_sounds sounds (resolved_grammatical text)
  have size : music.length = (accepted text).length := by
    rw [sounds.length_eq, resolved, resolve_length]
  unfold musicOf
  rw [compiled]
  dsimp only
  cases music with
  | nil => exact .inl ⟨List.eq_nil_of_length_eq_zero size.symm, _, rfl⟩
  | cons event rest =>
    right
    have some : accepted text ≠ [] := by
      intro none
      rw [none] at size
      cases size
    refine ⟨some, ?_⟩
    rw [if_neg (by simp)]
    split
    · exact ⟨_, _, rfl, size, fun event here => (single event here).widen (by omega) (by omega)⟩
    · obtain ⟨above, below⟩ := small (.ofList setting.numbers)
      have nameable : ∀ n, -38 ≤ n → n ≤ 157 →
          Pitch.Nameable (n + (transposition.resolve (.ofList setting.numbers)).1) :=
        fun n low high => Pitch.nameable_of_writable (.of_few (k := 3) (by omega) (by decide))
      obtain ⟨moved, transposed, same, moves⟩ := Music.transpose_single single nameable
      rw [transposed]
      exact ⟨_, _, rfl, same.trans size,
        fun event here => (moves event here).widen (by omega) (by omega)⟩

/-- What the compile command says of a text: a line for each of its notes, or that it has none. -/
structure Outcome.Prints (outcome : Outcome) (text : String) : Prop where
  settled : outcome.fault = none
  notes : accepted text ≠ [] → outcome.exit = 0 ∧ ∃ lines : List String,
    outcome.out = String.join (lines.map (· ++ "\n")) ∧ lines.length = (accepted text).length ∧
      ∀ line ∈ lines, Text.Plain line.toList
  silence : accepted text = [] → outcome.exit = 1 ∧ outcome.out = ""

theorem Outcome.Prints.unstyled {outcome : Outcome} (prints : outcome.Prints text) :
    outcome.unstyled.Prints text := by
  refine ⟨prints.settled, fun some => ?_, fun none => ?_⟩
  · obtain ⟨exit, lines, out, size, plain⟩ := prints.notes some
    refine ⟨exit, lines, ?_, size, plain⟩
    have unescaped : ∀ c ∈ (String.join (lines.map (· ++ "\n"))).toList, c ≠ '\x1b' := by
      intro c here
      rw [String.toList_join] at here
      obtain ⟨ended, member, here⟩ := List.mem_flatMap.mp here
      obtain ⟨line, there, rfl⟩ := List.mem_map.mp member
      rw [String.toList_append] at here
      rcases List.mem_append.mp here with inside | last
      · exact (plain line there c inside).2
      · have ends : "\n".toList = ['\n'] := by decide
        rw [ends] at last
        obtain rfl := List.mem_singleton.mp last
        decide
    show Text.unstyled outcome.out = _
    rw [out, Text.unstyled_eq unescaped]
  · obtain ⟨exit, out⟩ := prints.silence none
    refine ⟨exit, ?_⟩
    show Text.unstyled outcome.out = ""
    rw [out, Text.unstyled_eq (by simp)]

theorem compile_prints (setting : Setting) (text : String)
    (small : Small transposition) : (compile setting text transposition).Prints text := by
  unfold compile
  rcases musicOf_cases setting text small with
    ⟨none, said, found⟩ | ⟨some, music, said, found, size, single⟩
  · rw [found]
    exact ⟨rfl, fun some => absurd none some, fun _ => ⟨rfl, rfl⟩⟩
  · obtain ⟨lines, printed, same, plain⟩ := mapM_eventLine single
    rw [found]
    dsimp only
    rw [printed]
    exact ⟨rfl, fun _ => ⟨rfl, lines, rfl, same.trans size, plain⟩, fun none => absurd none some⟩

/-- With a text and a transposition that can be read, nothing else is asked for. -/
theorem compileCommand_eq (setting : Setting) {arguments : List String} {parsed : Parsed}
    (apart : parse compileSpellings true arguments = .ok parsed)
    (asked : parsed.flag? "--help" ≠ some true) (given : parsed.others = [text])
    (shift : transpositionOf parsed = .ok transposition) :
    compileCommand setting arguments = compile setting text transposition := by
  have one : argument parsed "TEXT" = .ok text := by
    rw [argument, given]
    rfl
  have transposes : checkParameter parsed "--transpose" = .ok () := by
    rw [checkParameter, shift]
    rfl
  have texts : checkParameter parsed "TEXT" = .ok () := by
    rw [checkParameter, one]
    rfl
  have known : ∀ parameter ∈ "TEXT" :: ["--transpose"] ++ compileSpellings.map Spelling.option,
      parameter = "TEXT" ∨ parameter = "--transpose" ∨ parameter = "--help" := by
    decide
  refine command_eq apart asked given (fun parameter here => ?_) ?_
  · rcases known parameter here with rfl | rfl | rfl
    · exact texts
    · exact transposes
    · rfl
  · rw [one, shift]
    rfl

theorem run_compile (disk : Disk) (numbers : List Int) {flags : List String}
    (verbose : flags = [] ∨ flags = ["-v"]) (arguments : List String) :
    ∃ setting, run disk numbers (flags ++ "compile" :: arguments) =
      (compileCommand setting arguments).unstyled := by
  obtain ⟨setting, _, _, ran⟩ :=
    run_command disk numbers verbose (by decide : "compile" ≠ "--") (by decide) arguments
  exact ⟨setting, ran _ rfl⟩

/-- Every text compiles to music that everything after it accepts: the names are those of the
tokens at the octaves carried to them, lengths are known at every tempo, the music can be
transposed and played, and the program prints it, whatever transposition it is given. -/
theorem compile_accepted (text : String) :
    ∃ compiled, Shorthand.compile text = .ok compiled ∧
      List.Forall₂ (fun event pair => event.Voices pair.1 pair.2) compiled.music
        ((accepted text).zip (resolved text)) ∧
      compiled.music.Fit ∧
      ∀ arguments parsed transposition, parse compileSpellings true arguments = .ok parsed →
        parsed.flag? "--help" ≠ some true → parsed.others = [text] →
        transpositionOf parsed = .ok transposition → ∀ disk numbers flags,
          flags = [] ∨ flags = ["-v"] →
          (run disk numbers (flags ++ "compile" :: arguments)).Prints text := by
  obtain ⟨music, compiled, _, sounds⟩ := compile_ok text
  have valid := resolved_grammatical text
  refine ⟨_, compiled, voices_resolve valid sounds,
    Music.fit_of_single (single_of_sounds sounds valid), ?_⟩
  intro arguments parsed transposition apart asked given shift disk numbers flags verbose
  obtain ⟨setting, ran⟩ := run_compile disk numbers verbose arguments
  rw [ran, compileCommand_eq setting apart asked given shift]
  exact (compile_prints setting text (transpositionOf_small shift)).unstyled

/-- The second token is left out, and the third is lowered below the octaves of the grammar. -/
theorem compile_accepted_lowered : ∃ lines : List String, lines.length = 2 ∧
    (run (fun _ => none) [] ["compile", "--transpose", "-24", "c#5,8t c13,2n bb-4"]).out =
      String.join (lines.map (· ++ "\n")) := by
  obtain ⟨_, _, _, _, prints⟩ := compile_accepted "c#5,8t c13,2n bb-4"
  have printed := prints ["--transpose", "-24", "c#5,8t c13,2n bb-4"]
    ⟨[("--transpose", .text "-24")], ["c#5,8t c13,2n bb-4"]⟩ (.semitones (-24)) (by rfl)
    (by decide) rfl (by rfl) (fun _ => none) [] [] (.inl rfl)
  obtain ⟨_, lines, out, size, _⟩ := printed.notes (by decide)
  have two : (accepted "c#5,8t c13,2n bb-4").length = 2 := by decide
  exact ⟨lines, size.trans two, out⟩

end CommandLine
end Solfege
