/- Proofs/Log
   digest: Which settings let a failure through, and the lines of a JSON log are its events. -/

import FilterRecord.Log
import FilterRecord.Proofs.Text.Words

set_option autoImplicit false
set_option relaxedAutoImplicit false

namespace FilterRecord

open Text

namespace Text.Json

theorem lineFeed_not_mem_escape (c : Char) : '\n' ∉ escape c := by
  have digit : ∀ d < 16, '\n' ≠ Nat.digitChar d := by decide
  unfold escape
  split
  case h_8 _ _ _ _ other _ _ =>
    split_ifs with control
    · have high := digit (c.toNat / 16) (by omega)
      have low := digit (c.toNat % 16) (by omega)
      simp [high, low]
    · rw [List.mem_singleton]
      exact fun feed => other feed.symm
  all_goals decide

theorem lineFeed_not_mem_quote (s : String) : '\n' ∉ (quote s).toList := by
  simp [quote, lineFeed_not_mem_escape]

end Text.Json

namespace Log

namespace Setting

theorem form_ofText_iff (s : String) :
    (ofText s).form = .json ↔ s = "json" ∨ ∃ word, s = "json:" ++ word := by
  unfold ofText
  split
  case h_1 word text =>
    have cut : s = "json:" ++ String.ofList word := by
      rw [← String.toList_inj, text]
      simp
    exact iff_of_true rfl (.inr ⟨_, cut⟩)
  case h_2 text =>
    have sign : s = "json" := by
      rw [← String.toList_inj, text]
      rfl
    exact iff_of_true rfl (.inl sign)
  case h_3 marked alone =>
    refine iff_of_false (by simp) ?_
    rintro (rfl | ⟨word, rfl⟩)
    · exact alone rfl
    · exact marked word.toList (by simp)

@[simp]
theorem threshold_eq_none_iff (setting : Setting) :
    setting.threshold = none ↔ setting.word = "off" := by
  simp [threshold]

theorem shut_ofText_iff (s : String) :
    (ofText s).form = .json ∧ (ofText s).threshold = none ↔ s = "json:off" := by
  rw [threshold_eq_none_iff, form_ofText_iff]
  constructor
  · rintro ⟨rfl | ⟨word, rfl⟩, off⟩
    · exact absurd off (by decide)
    · have word_off : word = "off" := by simpa [ofText] using off
      rw [word_off]
      rfl
  · rintro rfl
    exact ⟨.inr ⟨"off", rfl⟩, by decide⟩

variable (setting : Setting) {events : List Event} {event : Event}

theorem deliver_append (first second : List Event) :
    setting.deliver (first ++ second) = setting.deliver first ++ setting.deliver second := by
  unfold deliver
  split
  · rfl
  · exact List.filter_append ..

theorem mem_deliver_iff : event ∈ setting.deliver events ↔
    event ∈ events ∧ ∃ threshold, setting.threshold = some threshold ∧
      threshold.admits event.level = true := by
  unfold deliver
  cases setting.threshold <;> simp

/-- Only a shut log keeps a failure back. -/
theorem deliver_error (grave : event.level = .error) :
    setting.deliver [event] = if setting.threshold = none then [] else [event] := by
  unfold deliver
  cases setting.threshold with
  | none => rfl
  | some threshold => simp [grave, Level.admits, Level.rank]

end Setting

/-! ## Lines -/

/-- The lines of a text; what stands after the last line feed is one of them. -/
def lines (text : String) : List (List Char) := split (· == '\n') text.toList

def Event.line (event : Event) : List Char := (event.render .json).toList

theorem lineFeed_not_mem_line (event : Event) : '\n' ∉ event.line := by
  have quoted := Json.lineFeed_not_mem_quote
  simp [Event.line, Event.render, Json.renderCompact, joinWith, Json.renderField,
    Json.Scalar.render, quoted]

/-- A JSON log holds a line for each of its events, and no other text. -/
theorem lines_written (keepsControls : Bool) (events : List Event) :
    lines (written .json keepsControls events) = events.map Event.line ++ [[]] := by
  induction events with
  | nil => rfl
  | cons event rest ih =>
    have clean : ∀ c ∈ event.line, (c == '\n') = false := by
      intro c member
      refine beq_eq_false_iff_ne.mpr fun feed => ?_
      exact lineFeed_not_mem_line event (feed ▸ member)
    have text : (written .json keepsControls (event :: rest)).toList =
        event.line ++ '\n' :: (written .json keepsControls rest).toList := by
      simp [written, Event.written, Event.line]
    rw [lines, text, split_append clean, split, if_pos (by simp), ← lines, ih]
    simp

private theorem line_eq (event : Event) : ∃ rest, event.line =
    "\x7b\"@level\":\"".toList ++ (event.level.label.toList ++ '"' :: rest) := by
  have plain (level : Level) : level.label.toList.flatMap Json.escape = level.label.toList := by
    cases level <;> decide
  refine ⟨',' :: (joinWith "," [Json.renderField ":" ("@message", .text event.message),
    Json.renderField ":" ("@module", .text event.source)]).toList ++ "\x7d".toList, ?_⟩
  simp [Event.line, Event.render, Json.renderCompact, joinWith, Json.renderField,
    Json.Scalar.render, Json.quote, plain, Json.escape]

theorem line_ne_nil (event : Event) : event.line ≠ [] := by
  obtain ⟨rest, text⟩ := line_eq event
  simp [text]

theorem level_eq_of_line {first second : Event} (same : first.line = second.line) :
    first.level = second.level := by
  obtain ⟨_, first_line⟩ := line_eq first
  obtain ⟨_, second_line⟩ := line_eq second
  rw [first_line, second_line] at same
  have labels := List.append_cancel_left same
  cases level : first.level <;> cases other : second.level <;>
    simp [level, other, Level.label] at labels ⊢

end Log

end FilterRecord
