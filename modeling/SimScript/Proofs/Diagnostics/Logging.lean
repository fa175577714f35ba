import SimScript.Diagnostics.Logger

/-!
# What reaches the log

Lines are offered to the log one after the other.  The enabled severities pick out
the lines that are kept and counted; which lines are offered they do not decide.
-/

namespace SimScript

/-- The line that an event offers to the log. -/
def Event.line (event : Event) : Record :=
  ⟨event.severity, event.render⟩

namespace Logger

/-- Offers some lines to the log, in order. -/
def offer (logger : Logger) (lines : List Record) : Logger :=
  lines.foldl (fun logger line => logger.log line.severity line.text) logger

theorem emit_eq_log (logger : Logger) (event : Event) :
    logger.emit event = logger.log event.line.severity event.line.text := by
  unfold emit log Event.line
  split <;> rfl

theorem emitAll_eq_offer (logger : Logger) (events : Array Event) :
    logger.emitAll events = logger.offer (events.toList.map Event.line) := by
  rw [emitAll, offer, List.foldl_map, ← Array.foldl_toList]
  congr 1
  funext logger event
  exact emit_eq_log logger event

theorem offer_append (logger : Logger) (first second : List Record) :
    logger.offer (first ++ second) = (logger.offer first).offer second :=
  List.foldl_append

@[simp] theorem log_levels (logger : Logger) (severity : Severity) (text : String) :
    (logger.log severity text).levels = logger.levels := by
  unfold log
  split <;> rfl

theorem log_emitted (logger : Logger) (severity other : Severity) (text : String) :
    (logger.log severity text).emitted.get other = logger.emitted.get other +
      if severity = other ∧ logger.levels.get severity then 1 else 0 := by
  unfold log
  split
  case isTrue enabled =>
      by_cases same : other = severity
      · simp [PerSeverity.get_set, same, enabled]
      · simp [PerSeverity.get_set, same, Ne.symm same]
  case isFalse disabled => simp [disabled]

/-- Of the lines offered, those of enabled severities are counted. -/
theorem offer_emitted (logger : Logger) (lines : List Record) (severity : Severity) :
    (logger.offer lines).emitted.get severity = logger.emitted.get severity +
      lines.countP fun line => line.severity = severity ∧ logger.levels.get line.severity := by
  induction lines generalizing logger with
  | nil => simp [offer]
  | cons line rest induction =>
      have unfolded : logger.offer (line :: rest) =
          (logger.log line.severity line.text).offer rest := rfl
      rw [unfolded, induction, log_levels, log_emitted, List.countP_cons]
      simp only [decide_eq_true_eq]
      omega

theorem log_records (logger : Logger) (severity : Severity) (text : String) :
    (logger.log severity text).records =
      if logger.levels.get severity then logger.records.push ⟨severity, text⟩
      else logger.records := by
  unfold log
  split <;> rfl

/-- Of the lines offered, those of enabled severities are kept, in order. -/
theorem offer_records (logger : Logger) (lines : List Record) :
    (logger.offer lines).records.toList = logger.records.toList ++
      lines.filter fun line => logger.levels.get line.severity := by
  induction lines generalizing logger with
  | nil => simp [offer]
  | cons line rest induction =>
      have unfolded : logger.offer (line :: rest) =
          (logger.log line.severity line.text).offer rest := rfl
      rw [unfolded, induction, log_levels, log_records, List.filter_cons]
      split <;> simp

end Logger

end SimScript
