/-
  Where notices go.

  What a setup finds in place does not matter: it leaves the program's logger the level and the
  sinks of `Sinks.configure` (`Loggers.program_configure`).  Of the loggers above the one of a stage
  only the program's is ever given anything, so a notice that gets there is delivered by its level
  and its sinks (`Loggers.deliver_of_mem`), and a notice that does not is delivered without them.

  A stage whose name begins with a dot need not have the program's logger above its own: the unit
  before a dot is passed over with a name that no logger has, and here that unit is the dot behind
  the program's name (`Loggers.program_mem_above`).

  `Loggers.last_setup_delivers` says what becomes of each notice after a setup, and that the files
  of the setups do not show on the console.
-/
import Mathlib.Data.List.Forall2
import UberPackage.Journal.Logger

namespace UberPackage

/-- The name of the stage does not begin with a dot. -/
def Notice.IsNested (n : Notice) : Prop := ∀ s, n.stage = some s → s.head? ≠ some (.char '.')

namespace Logger

variable {idle line : List Logger}

/-- Sinks are removed until none is left. -/
theorem foldl_remove (ks : List Sink) (a : Logger) (h : a.sinks = ks) :
    ks.foldl remove a = { a with sinks := [] } := by
  induction ks generalizing a with
  | nil => rw [List.foldl_nil, ← h]
  | cons k ks ih =>
    have hrest : (a.remove k).sinks = ks := by
      unfold remove
      rw [h, List.erase_cons_head]
    rw [List.foldl_cons, ih _ hrest]
    rfl

theorem threshold_idle (h : ∀ a ∈ idle, a = {}) : threshold (idle ++ line) = threshold line := by
  induction idle with
  | nil => rfl
  | cons a idle ih =>
    obtain rfl := h a List.mem_cons_self
    exact ih fun b hb => h b (List.mem_cons_of_mem _ hb)

theorem reached_idle (h : ∀ a ∈ idle, a = {}) : reached (idle ++ line) = reached line := by
  induction idle with
  | nil => rfl
  | cons a idle ih =>
    obtain rfl := h a List.mem_cons_self
    exact ih fun b hb => h b (List.mem_cons_of_mem _ hb)

end Logger

namespace Loggers

variable {l l' : Loggers} {k : Sinks} {n : Notice}

/-! ## Setups -/

theorem program_reset (l : Loggers) (s : Setup) :
    (l.reset s).program =
      { l.program with sinks := [⟨.console, s.consoleLevel⟩], propagates := false } := by
  have hbare : (l.obtain Record.program).program.sinks.foldl Logger.remove
      { (l.obtain Record.program).program with propagates := false } =
        { l.program with sinks := [], propagates := false } := Logger.foldl_remove _ _ rfl
  unfold reset
  dsimp only
  rw [hbare]
  rfl

/-- What was in place before leaves no trace. -/
theorem program_configure (l : Loggers) (k : Sinks) (s : Setup) :
    (l.configure s).program = (k.configure s).logger := by
  unfold configure Sinks.configure
  cases s.logFile with
  | none =>
    dsimp only
    rw [program_reset]
    rfl
  | some p =>
    dsimp only
    rw [program_reset]
    rfl

theorem known_configure (l : Loggers) (s : Setup) :
    (l.configure s).known = l.known.insert Record.program := by
  unfold configure
  cases s.logFile <;> rfl

theorem root_configure (l : Loggers) (s : Setup) : (l.configure s).root = l.root := by
  unfold configure
  cases s.logFile <;> rfl

/-! ## The way up -/

/-- The names of a logger and of those above it. -/
def names (l : Loggers) (n : Notice) : List Text :=
  Record.journalName n.stage :: above l.known (Record.journalName n.stage).reverse

theorem logger_of_ne {name : Text} (h : name ≠ Record.program) : l.logger name = {} := if_neg h

/-- Below the program's logger nothing has been given to any. -/
theorem exists_line (h : Record.program ∈ l.names n) :
    ∃ idle rest, l.line (Record.journalName n.stage) = idle ++ l.program :: rest ∧
    ∀ a ∈ idle, a = {} := by
  obtain ⟨below, rest, hnames, hbelow⟩ := List.eq_append_cons_of_mem h
  refine ⟨below.map l.logger, rest.map l.logger ++ [l.root], ?_, fun a ha => ?_⟩
  · unfold line
    rw [show Record.journalName n.stage :: above l.known (Record.journalName n.stage).reverse =
      below ++ Record.program :: rest from hnames, List.map_append, List.map_cons,
      List.append_assoc,
      List.cons_append, show l.logger Record.program = l.program from if_pos rfl]
  · obtain ⟨name, hname, rfl⟩ := List.mem_map.mp ha
    exact logger_of_ne fun he => hbelow (he ▸ hname)

/-- A notice that gets to the program's logger is delivered by what that logger has. -/
theorem deliver_of_mem (hk : l.program = k.logger) (hsinks : k.sinks ≠ [])
    (h : Record.program ∈ l.names n) :
    l.deliver n =
      if n.weight < k.level.weight then []
      else (k.sinks.filter fun x => x.level.weight ≤ n.weight).map (·.deliver n) := by
  obtain ⟨idle, rest, hline, hidle⟩ := exists_line h
  have hthreshold : Logger.threshold (l.line (Record.journalName n.stage)) = k.level.weight := by
    rw [hline, Logger.threshold_idle hidle, hk]
    rfl
  have hreached : Logger.reached (l.line (Record.journalName n.stage)) = k.sinks := by
    rw [hline, Logger.reached_idle hidle, hk]
    exact List.append_nil k.sinks
  unfold deliver
  dsimp only
  rw [hthreshold, hreached]
  cases hs : k.sinks with
  | nil => exact absurd hs hsinks
  | cons x xs => rfl

/-- A notice that does not get there is delivered as if the program's logger were another. -/
theorem deliver_of_not_mem (hknown : l'.known = l.known) (hroot : l'.root = l.root)
    (h : Record.program ∉ l.names n) : l'.deliver n = l.deliver n := by
  have hline : l'.line (Record.journalName n.stage) = l.line (Record.journalName n.stage) := by
    unfold line
    rw [hknown, hroot]
    refine congrArg (· ++ [l.root]) (List.map_congr_left fun name hname => ?_)
    have hne : name ≠ Record.program := fun he => h (he ▸ hname)
    rw [logger_of_ne hne, logger_of_ne hne]
  unfold deliver
  rw [hline]

/-- What stands between the dot behind the program's name and the end may hold dots, but not begin
with one. -/
theorem program_mem_above {known : List Text} (hknown : Record.program ∈ known) :
    ∀ units : Text, units.getLast? ≠ some (.char '.') →
      Record.program ∈ above known (units ++ .char '.' :: Record.program.reverse)
  | [], _ => by
    have hname : above known (.char '.' :: Record.program.reverse) =
        Record.program :: above known Record.program.reverse :=
      if_pos (List.contains_iff_mem.mpr hknown)
    rw [List.nil_append, hname]
    exact List.mem_cons_self
  | [c], h => by
    have hc : c ≠ .char '.' := fun hc => h (congrArg some hc)
    have hskip : above known (c :: .char '.' :: Record.program.reverse) =
        above known (.char '.' :: Record.program.reverse) := if_neg hc
    rw [List.singleton_append, hskip]
    exact program_mem_above hknown [] (by simp)
  | c :: d :: units, h => by
    have hd : (d :: units).getLast? ≠ some (.char '.') := by
      rwa [List.getLast?_cons_cons] at h
    have hunits : units.getLast? ≠ some (.char '.') := by
      cases units with
      | nil => simp
      | cons e units => rwa [List.getLast?_cons_cons] at hd
    rw [List.cons_append, List.cons_append, above]
    split
    · split
      · exact List.mem_cons_of_mem _ (program_mem_above hknown (d :: units) hd)
      · exact program_mem_above hknown units hunits
    · exact program_mem_above hknown (d :: units) hd

theorem program_mem_names (hknown : Record.program ∈ l.known) (hn : n.IsNested) :
    Record.program ∈ l.names n := by
  unfold names
  cases hs : n.stage with
  | none => exact List.mem_cons_self
  | some s =>
    cases s with
    | nil => exact List.mem_cons_self
    | cons c s =>
      have hname : (Record.journalName (some (c :: s))).reverse =
          (c :: s).reverse ++ .char '.' :: Record.program.reverse := by
        have hjoin : Record.journalName (some (c :: s)) = Record.program ++ ("." ++ (c :: s)) := rfl
        rw [hjoin, List.reverse_append, List.reverse_append, List.append_assoc]
        rfl
      rw [hname]
      refine List.mem_cons_of_mem _ (program_mem_above hknown _ ?_)
      rw [List.getLast?_reverse]
      exact hn _ hs

/-! ## Deliveries of a setup -/

/-- The console takes a notice of the least level asked for, and the file any from `debug` on. -/
theorem deliver_of_setup {s : Setup} (hl : l.program = (k.configure s).logger)
    (h : Record.program ∈ l.names n) :
    l.deliver n = (if s.consoleLevel.weight ≤ n.weight then [.line .console n] else []) ++
      match s.logFile with
      | none => []
      | some p =>
        if Level.debug.weight ≤
          n.weight then [if n.isWritable then .line (.file p) n else .complaint p n]
        else [] := by
  have hdebug : Level.debug.weight ≤ s.consoleLevel.weight := by
    cases s.consoleLevel <;> decide
  cases hfile : s.logFile with
  | none =>
    have hk : k.configure s = ⟨s.consoleLevel, [⟨.console, s.consoleLevel⟩]⟩ :=
      by rw [Sinks.configure, hfile]
    rw [deliver_of_mem hl (by rw [hk]; exact List.cons_ne_nil _ _) h, hk]
    dsimp only
    by_cases hn : (s.consoleLevel.weight : Int) ≤ n.weight
    · have hpass : ¬ n.weight < s.consoleLevel.weight := by omega
      simp [hn, hpass, Sink.deliver]
    · have hstop : n.weight < s.consoleLevel.weight := by omega
      simp [hn, hstop]
  | some p =>
    have hk : k.configure s = ⟨.debug, [⟨.console, s.consoleLevel⟩, ⟨.file p, .debug⟩]⟩ := by
      rw [Sinks.configure, hfile]
    rw [deliver_of_mem hl (by rw [hk]; exact List.cons_ne_nil _ _) h, hk]
    dsimp only
    by_cases hn : (Level.debug.weight : Int) ≤ n.weight
    · have hpass : ¬ n.weight < Level.debug.weight := by omega
      by_cases hc : (s.consoleLevel.weight : Int) ≤ n.weight <;> simp [hn, hc, hpass, Sink.deliver]
    · -- what is not for the file is not for the console
      have hstop : n.weight < Level.debug.weight := by omega
      have hc : ¬ (s.consoleLevel.weight : Int) ≤ n.weight := by omega
      simp [hn, hc, hstop]

/-! ## Runs -/

theorem deliveries_append (l : Loggers) (es es' : List Event) :
    l.deliveries (es ++ es') = l.deliveries es ++ (es.foldl after l).deliveries es' := by
  induction es generalizing l with
  | nil => rfl
  | cons e es ih => exact congrArg (l.deliverAt e :: ·) (ih (l.after e))

theorem length_deliveries (l : Loggers) (es : List Event) :
    (l.deliveries es).length = es.length := by
  induction es generalizing l with
  | nil => rfl
  | cons e es ih => exact congrArg (· + 1) (ih (l.after e))

/-- The loggers are those of a setup: the program's has what the setup asks for. -/
structure Holds (l : Loggers) (s : Setup) : Prop where
  program : l.program = (({} : Sinks).configure s).logger
  known : Record.program ∈ l.known

theorem holds_configure (l : Loggers) (s : Setup) : (l.configure s).Holds s where
  program := program_configure l {} s
  known := by
    rw [known_configure]
    exact List.mem_insert_self

theorem Holds.obtain {s : Setup} (h : l.Holds s) (name : Text) : (l.obtain name).Holds s where
  program := h.program
  known := List.mem_insert_of_mem h.known

/-- Notices do not change what has been set up. -/
theorem Holds.notices {s : Setup} (h : l.Holds s) (ns : List Notice) :
    ((ns.map Event.notice).foldl after l).Holds s := by
  induction ns generalizing l with
  | nil => exact h
  | cons n ns ih => exact ih (h.obtain _)

/-- The sinks of a session deliver a record as the loggers do. -/
theorem Holds.deliver_record {s : Setup} (h : l.Holds s) {r : Record} (hr : r.notice.IsNested) :
    (k.configure s).deliver r = l.deliver r.notice := by
  have hsession : Record.program ∈
      ({ known := [Record.program], program := (k.configure s).logger } : Loggers).names
      r.notice := program_mem_names List.mem_cons_self hr
  rw [deliver_of_setup h.program (program_mem_names h.known hr)]
  exact deliver_of_setup rfl hsession

/-! ## Runs without files -/

/-- The same event, or a setup and the same without its file. -/
inductive Event.Quieted : Event → Event → Prop where
  | same (e : Event) : Quieted e e
  | file (s : Setup) : Quieted (.configure s) (.configure { s with logFile := none })

/-- A setup whose file, if it has one, can be opened, or a notice whose line can be written into a
file. -/
def Event.IsSmooth : Event → Prop
  | .configure _ => True
  | .breakOff _ => False
  | .notice n => n.isWritable = true

instance : DecidablePred Event.IsSmooth
  | .configure _ => .isTrue trivial
  | .breakOff _ => .isFalse id
  | .notice n => inferInstanceAs (Decidable (n.isWritable = true))

/-- Loggers that show the same on the console: all is the same, but for the file of the setup in
place. -/
structure Alike (l l' : Loggers) : Prop where
  known : l'.known = l.known
  root : l'.root = l.root
  program : l'.program = l.program ∨ ∃ s s', s'.consoleLevel = s.consoleLevel ∧
    l.program = (({} : Sinks).configure s).logger ∧ l'.program = (({} : Sinks).configure s').logger

theorem Alike.refl (l : Loggers) : Alike l l := ⟨rfl, rfl, Or.inl rfl⟩

theorem Alike.obtain (h : Alike l l') (name : Text) : Alike (l.obtain name) (l'.obtain name) where
  known := congrArg (List.insert name) h.known
  root := h.root
  program := h.program

theorem Alike.configure (h : Alike l l') {s s' : Setup} (hs : s'.consoleLevel = s.consoleLevel) :
    Alike (l.configure s) (l'.configure s') where
  known := by rw [known_configure, known_configure, h.known]
  root := by rw [root_configure, root_configure, h.root]
  program := Or.inr ⟨s, s', hs, program_configure l {} s, program_configure l' {} s'⟩

/-- What a setup shows on the console: no file has a part in it. -/
theorem onConsole_of_setup {s : Setup} (hl : l.program = (k.configure s).logger)
    (h : Record.program ∈ l.names n) (hn : n.isWritable = true) :
    (l.deliver n).filter Delivery.onConsole =
      if s.consoleLevel.weight ≤ n.weight then [.line .console n] else [] := by
  rw [deliver_of_setup hl h, List.filter_append]
  have hconsole :
      (if s.consoleLevel.weight ≤ n.weight then [Delivery.line .console n] else []).filter
          Delivery.onConsole =
        if s.consoleLevel.weight ≤ n.weight then [.line .console n] else [] := by
    split <;> rfl
  rw [hconsole]
  cases s.logFile with
  | none => exact List.append_nil _
  | some p =>
    have hfile : (if Level.debug.weight ≤ n.weight then
        [if n.isWritable = true then Delivery.line (.file p) n else .complaint p n] else []).filter
          Delivery.onConsole = [] := by
      rw [hn, if_pos rfl]
      split <;> rfl
    exact (congrArg (_ ++ ·) hfile).trans (List.append_nil _)

theorem Alike.deliver (h : Alike l l') (hn : n.isWritable = true) :
    (l'.deliver n).filter Delivery.onConsole = (l.deliver n).filter Delivery.onConsole := by
  rcases h.program with hprogram | ⟨s, s', hs, hl, hl'⟩
  · have he : l' = l := by
      cases l
      cases l'
      cases h.known
      cases h.root
      cases hprogram
      rfl
    rw [he]
  · by_cases hmem : Record.program ∈ l.names n
    · have hmem' : Record.program ∈ l'.names n := by
        unfold names
        rw [h.known]
        exact hmem
      rw [onConsole_of_setup hl hmem hn, onConsole_of_setup hl' hmem' hn, hs]
    · rw [deliver_of_not_mem h.known h.root hmem]

/-- One event leaves alike loggers alike, and shows the same. -/
theorem Alike.step (h : Alike l l') {e e' : Event} (he : e.Quieted e') (hsmooth : e.IsSmooth) :
    Alike (l.after e) (l'.after e') ∧
      (l'.deliverAt e').filter Delivery.onConsole = (l.deliverAt e).filter Delivery.onConsole := by
  cases he with
  | file s =>
    have hs : ({ s with logFile := none } : Setup).consoleLevel = s.consoleLevel := rfl
    exact ⟨h.configure hs, rfl⟩
  | same =>
    cases e with
    | configure s => exact ⟨h.configure rfl, rfl⟩
    | breakOff s => exact hsmooth.elim
    | notice n => exact ⟨h.obtain _, (h.obtain _).deliver hsmooth⟩

theorem Alike.deliveries (h : Alike l l') {es es' : List Event}
    (hes : List.Forall₂ Event.Quieted es es') (hsmooth : ∀ e ∈ es, e.IsSmooth) :
    (l'.deliveries es').map (·.filter Delivery.onConsole) =
      (l.deliveries es).map (·.filter Delivery.onConsole) := by
  induction hes generalizing l l' with
  | nil => rfl
  | cons he _ ih =>
    obtain ⟨hnext, hshown⟩ := h.step he (hsmooth _ List.mem_cons_self)
    have hrest := ih hnext fun e hmem => hsmooth e (List.mem_cons_of_mem _ hmem)
    exact congrArg₂ (· :: ·) hshown hrest

/-! ## The last setup -/

/-- **The last setup decides what becomes of a notice, and files do not show on the console.**
Whatever happened before a setup, setups that were broken off included, and whatever notices come
between, a notice of a stage whose name does not begin with a dot comes to one line on the console
if its weight is at least that of `debug` (verbose), of `warning` (quiet) or else of `info`, to one
line in the file of this setup, if it has one and the line can be written (to a report if it cannot)
and if the weight is at least that of `debug`, and to nothing else.  In a run of setups whose files
can be opened and of notices whose lines can be written, each event shows the same on the console if
any of the setups are put in place without their files. -/
theorem last_setup_delivers :
    (∀ (before : List Event) (s : Setup) (between : List Notice) (n : Notice) (later : List Event),
      n.IsNested →
      (({} : Loggers).deliveries (before ++ .configure s :: between.map .notice ++ .notice n ::
          later))[before.length + 1 + between.length]? = some
        ((if (if s.verbose then Level.debug else if s.quiet then .warning
            else .info).weight ≤ n.weight then [.line .console n] else []) ++
          match s.logFile with
          | none => []
          | some p =>
            if Level.debug.weight ≤
              n.weight then [if n.isWritable then .line (.file p) n else .complaint p n]
            else [])) ∧
    ∀ es es' : List Event, List.Forall₂ Event.Quieted es es' → (∀ e ∈ es, e.IsSmooth) →
      (({} : Loggers).deliveries es').map (·.filter Delivery.onConsole) =
        (({} : Loggers).deliveries es).map (·.filter Delivery.onConsole) := by
  constructor
  · intro before s between n later hn
    have hlength : before.length + 1 + between.length =
        (({} : Loggers).deliveries (before ++ .configure s :: between.map .notice)).length := by
      rw [length_deliveries, List.length_append, List.length_cons, List.length_map]
      omega
    have hholds : Loggers.Holds
        ((before ++ .configure s :: between.map Event.notice).foldl after ({} : Loggers)) s := by
      rw [List.foldl_append, List.foldl_cons]
      exact (holds_configure _ s).notices between
    rw [deliveries_append, hlength, List.getElem?_append_right (Nat.le_refl _), Nat.sub_self]
    have hnow := hholds.obtain (Record.journalName n.stage)
    exact congrArg some (deliver_of_setup hnow.program (program_mem_names hnow.known hn))
  · intro es es' hes hsmooth
    exact (Alike.refl {}).deliveries hes hsmooth

namespace Sample

def log : Path := Path.ofText "/w/run.log"

/-- A notice of a stage, of the weight of `info`. -/
def told (stage : Text) : Notice := ⟨20, some stage, "told"⟩

/-- A notice that has no bytes: half of a pair stands alone in it. -/
def unspeakable : Notice := ⟨20, none, [.half 0]⟩

/-- A talkative run whose file is given up, and then a quiet one with another file. -/
def run : List Event :=
  [.configure { verbose := true, logFile := some log }, .notice (told "rewriter"),
    .configure { quiet := true, logFile := some (Path.ofText "/w/next.log") }, .notice (told "a.b"),
    .notice (told "cli"), .notice ⟨30, none, "warned"⟩]

/-- The same without the first file. -/
def quieted : List Event :=
  [.configure { verbose := true }, .notice (told "rewriter"),
    .configure { quiet := true, logFile := some (Path.ofText "/w/next.log") }, .notice (told "a.b"),
    .notice (told "cli"), .notice ⟨30, none, "warned"⟩]

theorem isNested_cli : (told "cli").IsNested := by
  rintro s ⟨⟩
  decide

theorem quieted_run : List.Forall₂ Event.Quieted run quieted :=
  .cons (.file _) (List.forall₂_same.mpr fun e _ => .same e)

end Sample

theorem last_setup_delivers_sample :
    (Sample.told "cli").IsNested ∧
    (({} : Loggers).deliveries Sample.run)[4]? =
      some [.line (.file (Path.ofText "/w/next.log")) (Sample.told "cli")] ∧
    List.Forall₂ Event.Quieted Sample.run Sample.quieted ∧ (∀ e ∈ Sample.run, e.IsSmooth) ∧
    (({} : Loggers).deliveries Sample.quieted).map (·.filter Delivery.onConsole) =
      (({} : Loggers).deliveries Sample.run).map (·.filter Delivery.onConsole) := by
  have hsmooth : ∀ e ∈ Sample.run, e.IsSmooth := by decide
  refine ⟨Sample.isNested_cli, ?_, Sample.quieted_run, hsmooth,
    last_setup_delivers.2 _ _ Sample.quieted_run hsmooth⟩
  have h := last_setup_delivers.1 (Sample.run.take 2)
    { quiet := true, logFile := some (Path.ofText "/w/next.log") } [Sample.told "a.b"]
      (Sample.told "cli")
    (Sample.run.drop 5) Sample.isNested_cli
  exact h

/-- A stage whose name begins with a dot has a logger that is not below the program's; a line that
has no bytes is missing in the file, and the report of that shows on the console; and when a setup
is broken off, the level of the one before stays. -/
theorem last_setup_strays :
    (¬ ∀ (s : Setup) (n : Notice), s.consoleLevel.weight ≤ n.weight →
      .line .console n ∈ (({} : Loggers).deliveries [.configure s, .notice n]).flatten) ∧
    (¬ ∀ (s : Setup) (p : Path) (n : Notice), n.IsNested → s.logFile = some p →
      Level.debug.weight ≤ n.weight →
      .line (.file p) n ∈ (({} : Loggers).deliveries [.configure s, .notice n]).flatten) ∧
    (¬ ∀ (s : Setup) (n : Notice), n.IsNested →
      (({} : Loggers).deliveries [.configure { s with logFile := none }, .notice n]).map
        (·.filter Delivery.onConsole) =
        (({} : Loggers).deliveries [.configure s, .notice n]).map (·.filter Delivery.onConsole)) ∧
    ¬ ∀ (s s' : Setup) (n : Notice), n.IsNested → s'.consoleLevel.weight ≤ n.weight →
      .line .console n ∈
        (({} : Loggers).deliveries [.configure s, .breakOff s', .notice n]).flatten := by
  have hspoken : Sample.unspeakable.IsNested := by rintro s ⟨⟩
  refine ⟨fun h => ?_, fun h => ?_, fun h => ?_, fun h => ?_⟩
  · exact absurd (h {} (Sample.told ".x") (by decide)) (by decide)
  · exact absurd (h { logFile := some Sample.log } Sample.log Sample.unspeakable hspoken rfl
      (by decide)) (by decide)
  · exact absurd (h { logFile := some Sample.log } Sample.unspeakable hspoken) (by decide)
  · exact absurd (h { quiet := true } { verbose := true, logFile := some Sample.log }
      (Sample.told "cli") Sample.isNested_cli (by decide)) (by decide)

end Loggers

end UberPackage
