/-
# The parser in force

Settings that are accepted take the place of those before them. The parser is a
part of its own: settings that name one put it in force, and settings that name
none leave the one that was. So the parser is that of the latest settings which
name one, and there is none only as long as no settings have named any.
-/

import StyleSense.Proofs.Service.Interference

namespace StyleSense.Service

/-- The settings that an exchange has put in force. -/
def Exchange.settings? (e : Exchange) : Option Settings :=
  match e.request, e.answer with
  | .configure settings, .ok _ => some settings
  | _, _ => none

/-- The settings that have been in force, the latest first. -/
def inForce (initial : Settings) (past : List Exchange) : List Settings :=
  past.filterMap Exchange.settings? ++ [initial]

/-- The latest settings in force that name a parser, or the initial ones. -/
def namingLast (initial : Settings) (past : List Exchange) : Settings :=
  ((inForce initial past).find? fun settings => settings.parserCommand.isSome).getD initial

variable {initial settings : Settings} {past : List Exchange} {e : Exchange} {s : Session}
  {parser : Option ParserCommand}

theorem inForce_cons_of_none (h : e.settings? = none) :
    inForce initial (e :: past) = inForce initial past := by
  rw [inForce, List.filterMap_cons_none h, inForce]

theorem inForce_cons_of_some (h : e.settings? = some settings) :
    inForce initial (e :: past) = settings :: inForce initial past := by
  rw [inForce, List.filterMap_cons_some h, inForce, List.cons_append]

theorem parserOf_of_none (h : settings.parserCommand = none) : parserOf settings = .ok none := by
  rw [parserOf, h]

/-- Settings with a command name a parser, unless they are refused. -/
theorem isSome_of_parserOf {command : List String} (h : settings.parserCommand = some command)
    (hparser : parserOf settings = .ok parser) : parser.isSome = true := by
  rw [parserOf, h] at hparser
  cases command with
  | nil => cases hparser
  | cons program arguments =>
      cases hparser
      rfl

/-- Only new settings change the settings or the parser. -/
theorem reply_setup (s : Session) (programs : Programs) {request : Request}
    (h : ∀ settings, request ≠ .configure settings) :
    (s.reply programs request).2.settings = s.settings ∧
      (s.reply programs request).2.parser = s.parser := by
  have hopen : ∀ uri languageId version text ast,
      (s.openDocument uri languageId version text ast).settings = s.settings ∧
        (s.openDocument uri languageId version text ast).parser = s.parser := by
    intro uri languageId version text ast
    rw [Session.openDocument, Session.storeAst]
    cases ast.bind Node.ofJson? <;> exact ⟨rfl, rfl⟩
  cases request with
  | ping | shutdown | close | colorPresentation => exact ⟨rfl, rfl⟩
  | configure settings => exact absurd rfl (h settings)
  | openDocument name languageId version text ast => exact hopen name languageId version text ast
  | change name version text ast =>
      rw [Session.reply, Session.changeDocument]
      cases s.cache.document? name with
      | none => exact ⟨rfl, rfl⟩
      | some previous => exact hopen name previous.languageId version text ast
  | hover name position => exact analyse_setup s programs _ name _
  | complete name position => exact analyse_setup s programs _ name _
  | colors name =>
      have hanalysed := analyse_setup s programs s.settings.colorDecorators name
        fun document tree => Assist.swatches? document tree s.tracker .never
      rcases reply_colors s programs name with hnext | ⟨swatches, hnext⟩ <;>
      · rw [hnext]
        exact hanalysed

/-- Settings and parser of a session, explained by its past. -/
structure SetUp (initial : Settings) (past : List Exchange) (s : Session) : Prop where
  settings : (inForce initial past).head? = some s.settings
  parser : parserOf (namingLast initial past) = .ok s.parser

theorem SetUp.start (h : Session.new initial = .ok s) : SetUp initial [] s := by
  rw [Session.new_eq_fresh] at h
  cases hparser : parserOf initial with
  | error fault =>
      rw [hparser] at h
      cases h
  | ok parser =>
      rw [hparser] at h
      cases h
      refine ⟨rfl, ?_⟩
      have hlast : namingLast initial [] = initial := by
        rw [namingLast, inForce, List.filterMap_nil, List.nil_append, List.find?_singleton]
        split <;> rfl
      rw [hlast, hparser]
      rfl

/-- Settings that are accepted are in force, and so is the parser they name. -/
theorem SetUp.configure (h : SetUp initial past s) (he : e.settings? = some settings)
    (hparser : parserOf settings = .ok parser) :
    SetUp initial (e :: past)
      { s with settings, parser := parser.orElse fun _ => s.parser } where
  settings := by rw [inForce_cons_of_some he, List.head?_cons]
  parser := by
    rw [namingLast, inForce_cons_of_some he]
    cases hcommand : settings.parserCommand with
    | some command =>
        obtain ⟨named, rfl⟩ := Option.isSome_iff_exists.1 (isSome_of_parserOf hcommand hparser)
        rw [List.find?_cons_of_pos (by rw [hcommand]; rfl)]
        exact hparser
    | none =>
        rw [parserOf_of_none hcommand] at hparser
        cases hparser
        rw [List.find?_cons_of_neg (by rw [hcommand]; exact Bool.false_ne_true)]
        exact h.parser

theorem SetUp.reply (h : SetUp initial past s) (programs : Programs) (request : Request) :
    SetUp initial (⟨s, programs, request, (s.reply programs request).1⟩ :: past)
      (s.reply programs request).2 := by
  have hkeeps : ∀ (answer : Except Fault Reply) (next : Session),
      (Exchange.mk s programs request answer).settings? = none →
      next.settings = s.settings → next.parser = s.parser →
      SetUp initial (⟨s, programs, request, answer⟩ :: past) next := by
    intro answer next he hsettings hparser
    refine ⟨?_, ?_⟩
    · rw [inForce_cons_of_none he, hsettings]
      exact h.settings
    · rw [namingLast, inForce_cons_of_none he, hparser]
      exact h.parser
  by_cases hconfigure : ∃ settings, request = .configure settings
  · obtain ⟨settings, rfl⟩ := hconfigure
    rw [Session.reply, Session.configure]
    cases hparser : parserOf settings with
    | error fault => exact hkeeps _ s rfl rfl rfl
    | ok parser => exact h.configure rfl hparser
  · have hother : ∀ settings, request ≠ .configure settings :=
      fun settings heq => hconfigure ⟨settings, heq⟩
    obtain ⟨hsettings, hparser⟩ := reply_setup s programs hother
    refine hkeeps _ _ ?_ hsettings hparser
    cases request with
    | configure settings => exact absurd rfl (hother settings)
    | _ => rfl

/-- Whatever a session is asked, the settings are the last that were accepted,
and the parser is that of the last which name one: theirs, if they do, and none
as long as no settings have. It is this parser that is asked for the tree of a
document when none is kept. -/
theorem parser_after (h : Session.new initial = .ok s) (turns : List Turn) :
    let run := (Run.mk s []).after turns
    (inForce initial run.past).head? = some run.session.settings ∧
      parserOf (namingLast initial run.past) = .ok run.session.parser ∧
      (run.session.settings.parserCommand ≠ none →
        parserOf run.session.settings = .ok run.session.parser) ∧
      ((∀ settings ∈ inForce initial run.past, settings.parserCommand = none) →
        run.session.parser = none) ∧
      ∀ programs document, run.session.cache.kept? document.uri = none →
        (run.session.treeFor programs document).1 = run.session.parser.bind fun parser =>
          parser.tree? programs (run.session.settings.parsedLanguage document.languageId)
            document.text := by
  intro run
  have hrun : SetUp initial run.past run.session :=
    Run.after_induction (r := Run.mk s []) (P := fun r => SetUp initial r.past r.session)
      (SetUp.start h) (fun r turn hr => hr.reply turn.programs turn.request) turns
  refine ⟨hrun.settings, hrun.parser, fun hnamed => ?_, fun hnone => ?_,
    fun programs document hmissing => ?_⟩
  · have hsome : run.session.settings.parserCommand.isSome = true :=
      Option.isSome_iff_ne_none.2 hnamed
    have hlast : namingLast initial run.past = run.session.settings := by
      obtain ⟨rest, hrest⟩ := List.head?_eq_some_iff.1 hrun.settings
      rw [namingLast, hrest, List.find?_cons_of_pos (by exact hsome)]
      rfl
    rw [← hlast]
    exact hrun.parser
  · have hinitial : initial.parserCommand = none :=
      hnone initial (List.mem_append_right _ List.mem_cons_self)
    have hlast : namingLast initial run.past = initial := by
      rw [namingLast, List.find?_eq_none.2 fun settings hmem => by rw [hnone settings hmem]; nofun]
      rfl
    have hparser := hrun.parser
    rw [hlast, parserOf_of_none hinitial] at hparser
    exact (Except.ok.inj hparser).symm
  · rw [treeFor_of_not_kept hmissing]
    change _ = run.session.parse? programs document
    cases run.session.parse? programs document <;> rfl

/-- Settings that name a parser, then settings that name none, then settings with
an empty command, which are refused: the second are in force, with the parser of
the first. -/
theorem parser_after_default :
    let reading : Settings := { Settings.default with parserCommand := some ["cat"] }
    let refused : Settings := { Settings.default with parserCommand := some [] }
    let run := (Run.mk .initial []).after
      ([.configure reading, .configure .default, .configure refused].map
        (Turn.mk fun _ _ => none))
    Session.new .default = .ok .initial ∧ run.session.settings = .default ∧
      run.session.parser = some ⟨⟨"cat", []⟩⟩ := by
  intro reading refused run
  have hnew : Session.new .default = .ok .initial := rfl
  obtain ⟨hsettings, hparser, -⟩ := parser_after hnew
    ([.configure reading, .configure .default, .configure refused].map (Turn.mk fun _ _ => none))
  exact ⟨hnew, (Option.some.inj hsettings).symm, (Except.ok.inj hparser).symm⟩

/-- The settings in force may name no parser while there is one: it was named by
settings that have been replaced. -/
theorem parser_outlives_settings :
    let reading : Settings := { Settings.default with parserCommand := some ["cat"] }
    let run := (Run.mk .initial []).after
      ([.configure reading, .configure .default].map (Turn.mk fun _ _ => none))
    Session.new .default = .ok .initial ∧ run.session.settings.parserCommand = none ∧
      parserOf run.session.settings = .ok none ∧ run.session.parser = some ⟨⟨"cat", []⟩⟩ :=
  ⟨rfl, rfl, rfl, rfl⟩

end StyleSense.Service
