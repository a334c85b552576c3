/-
The settings of `config.toml`: where each one stands, its default, and which
values are usable.  A setting carries the proofs that its default is usable and
that a value that was kept is kept again.
-/
import Opensesh.HostsFile

namespace Opensesh

open List

/-- How one key is read: `accept` is the value as it is kept, when the value in
the file is usable. -/
structure Setting where
  sectionName : String
  key : String
  fallback : Value
  accept : Value → Option Value
  accept_fallback : accept fallback = some fallback
  accept_accept : ∀ {v w}, accept v = some w → accept w = some w
  accept_same : ∀ {v w}, same v w = true → accept v = accept w
  wellFormed_accept : ∀ {v w}, accept v = some w → w.wellFormed = true

namespace Setting

def acceptBoolean : Value → Option Value
  | .boolean value => some (.boolean value)
  | _ => none

variable {v w : Value} {names : List String} {mayBeEmpty : Bool}

theorem acceptBoolean_eq_some :
    acceptBoolean v = some w ↔ ∃ value, v = .boolean value ∧ w = .boolean value := by
  cases v <;> simp [acceptBoolean, eq_comm]

/-- `Reader::boolean`. -/
def boolean (sectionName key : String) (fallback : Bool) : Setting where
  sectionName
  key
  fallback := .boolean fallback
  accept := acceptBoolean
  accept_fallback := rfl
  accept_accept h := by
    obtain ⟨value, rfl, rfl⟩ := acceptBoolean_eq_some.mp h
    exact h
  accept_same {v w} h := by
    cases v <;> cases w <;> simp_all [acceptBoolean, same]
  wellFormed_accept h := by
    obtain ⟨value, rfl, rfl⟩ := acceptBoolean_eq_some.mp h
    rfl

def acceptText (valid : String → Bool) : Value → Option Value
  | .string text => if valid text then some (.string text) else none
  | _ => none

theorem acceptText_eq_some {valid : String → Bool} :
    acceptText valid v = some w ↔
      ∃ text, valid text = true ∧ v = .string text ∧ w = .string text := by
  cases v with
  | string text =>
    rw [acceptText, Option.ite_none_right_eq_some, Option.some.injEq]
    constructor
    · rintro ⟨hvalid, rfl⟩
      exact ⟨text, hvalid, rfl, rfl⟩
    · rintro ⟨_, hvalid, ⟨⟩, rfl⟩
      exact ⟨hvalid, rfl⟩
  | _ => simp [acceptText]

/-- A string, of those that are valid. -/
def text (valid : String → Bool) (sectionName key fallback : String)
    (h : valid fallback = true) : Setting where
  sectionName
  key
  fallback := .string fallback
  accept := acceptText valid
  accept_fallback := acceptText_eq_some.mpr ⟨fallback, h, rfl, rfl⟩
  accept_accept h := by
    obtain ⟨text, -, rfl, rfl⟩ := acceptText_eq_some.mp h
    exact h
  accept_same {v w} h := by
    cases v <;> cases w <;> simp_all [acceptText, same]
  wellFormed_accept h := by
    obtain ⟨text, -, rfl, rfl⟩ := acceptText_eq_some.mp h
    rfl

/-- `Reader::string`. -/
def string (sectionName key fallback : String) : Setting :=
  text (fun _ => true) sectionName key fallback rfl

/-- `Reader::choice`, by the names of the choices. -/
def choice (names : List String) (sectionName key fallback : String)
    (h : names.contains fallback = true) : Setting :=
  text names.contains sectionName key fallback h

def acceptWhole (low high : Int) : Value → Option Value
  | .integer value =>
    if low ≤ value ∧ value ≤ high then some (.integer value) else none
  | _ => none

theorem acceptWhole_eq_some {low high : Int} :
    acceptWhole low high v = some w ↔
      ∃ value, (low ≤ value ∧ value ≤ high) ∧ v = .integer value ∧ w = .integer value := by
  cases v with
  | integer value =>
    rw [acceptWhole, Option.ite_none_right_eq_some, Option.some.injEq]
    constructor
    · rintro ⟨hrange, rfl⟩
      exact ⟨value, hrange, rfl, rfl⟩
    · rintro ⟨_, hrange, ⟨⟩, rfl⟩
      exact ⟨hrange, rfl⟩
  | _ => simp [acceptWhole]

/-- `Reader::bounded` and `Reader::minutes`: a whole number in a range. -/
def whole (low high : Int) (sectionName key : String) (fallback : Int)
    (h : low ≤ fallback ∧ fallback ≤ high) : Setting where
  sectionName
  key
  fallback := .integer fallback
  accept := acceptWhole low high
  accept_fallback := acceptWhole_eq_some.mpr ⟨fallback, h, rfl, rfl⟩
  accept_accept h := by
    obtain ⟨value, -, rfl, rfl⟩ := acceptWhole_eq_some.mp h
    exact h
  accept_same {v w} h := by
    cases v <;> cases w <;> simp_all [acceptWhole, same]
  wellFormed_accept h := by
    obtain ⟨value, -, rfl, rfl⟩ := acceptWhole_eq_some.mp h
    rfl

/-- `1.0`. -/
def one : F64 := ⟨0x3FF0000000000000⟩

/-- `0.8..=1.5`: positive floats are in the order of their bits. -/
def inScaleRange (x : F64) : Bool :=
  0x3FE999999999999A ≤ x.bits.toNat && x.bits.toNat ≤ 0x3FF8000000000000

theorem not_nan_of_inScaleRange {x : F64} (h : inScaleRange x = true) :
    x.isNan = false ∧ x.isZero = false := by
  simp only [inScaleRange, Bool.and_eq_true, decide_eq_true_eq] at h
  have hmod : x.bits.toNat % 2 ^ 63 = x.bits.toNat := Nat.mod_eq_of_lt (by omega)
  rw [F64.isNan, F64.isZero, hmod]
  simp only [gt_iff_lt, decide_eq_false_iff_not, not_lt, beq_eq_false_iff_ne]
  omega

def acceptScale : Value → Option Value
  | .float x => if inScaleRange x then some (.float x) else none
  -- The only whole number in the range.
  | .integer value => if value = 1 then some (.float one) else none
  | _ => none

theorem acceptScale_eq_some (h : acceptScale v = some w) :
    ∃ x, inScaleRange x = true ∧ w = .float x := by
  cases v with
  | float x =>
    rw [acceptScale, Option.ite_none_right_eq_some, Option.some.injEq] at h
    exact ⟨x, h.1, h.2.symm⟩
  | integer value =>
    rw [acceptScale, Option.ite_none_right_eq_some, Option.some.injEq] at h
    exact ⟨one, by decide, h.2.symm⟩
  | _ => cases h

theorem inScaleRange_of_same {x y : F64}
    (h : same (.float x) (.float y) = true) (hx : inScaleRange x = true) :
    x = y := by
  obtain ⟨hnan, hzero⟩ := not_nan_of_inScaleRange hx
  rcases (same_float_iff x y).mp h with ⟨hnan', -⟩ | ⟨-, -, heq | ⟨hzero', -⟩⟩
  · simp [hnan] at hnan'
  · exact heq
  · simp [hzero] at hzero'

theorem acceptScale_same (h : same v w = true) : acceptScale v = acceptScale w := by
  cases v with
  | float x =>
    cases w with
    | float y =>
      by_cases hx : inScaleRange x = true
      · rw [inScaleRange_of_same h hx]
      · by_cases hy : inScaleRange y = true
        · rw [inScaleRange_of_same (same_symm rfl rfl h) hy] at hy
          exact absurd hy hx
        · simp [acceptScale, hx, hy]
    | _ => simp [same] at h
  | _ => cases w <;> simp_all [acceptScale, same]

/-- `Reader::scale`. -/
def scale (sectionName key : String) : Setting where
  sectionName
  key
  fallback := .float one
  accept := acceptScale
  accept_fallback := by decide
  accept_accept h := by
    obtain ⟨x, hx, rfl⟩ := acceptScale_eq_some h
    simp [acceptScale, hx]
  accept_same := acceptScale_same
  wellFormed_accept h := by
    obtain ⟨x, -, rfl⟩ := acceptScale_eq_some h
    rfl

def hexDigits : List Char := "0123456789abcdefABCDEF".toList

def upperHex (c : Char) : Char :=
  if 'a' ≤ c ∧ c ≤ 'f' then Char.ofNat (c.toNat - 32) else c

/-- `Accent::from_str` and `to_config_string`: `default`, or a color as
`#RRGGBB`. -/
def acceptAccent : Value → Option Value
  | .string text =>
    if text = "default" then some (.string text)
    else
      match text.toList with
      | '#' :: hex =>
        if hex.length = 6 ∧ hex.all hexDigits.contains then
          some (.string (String.ofList ('#' :: hex.map upperHex)))
        else none
      | _ => none
  | _ => none

theorem upperHex_contains {c : Char} (h : hexDigits.contains c = true) :
    hexDigits.contains (upperHex c) = true ∧ upperHex (upperHex c) = upperHex c := by
  have hall : (hexDigits.all fun c => hexDigits.contains (upperHex c) &&
      upperHex (upperHex c) == upperHex c) = true := by decide
  have hdigit := all_eq_true.mp hall c (contains_iff_mem.mp h)
  rwa [Bool.and_eq_true, beq_iff_eq] at hdigit

theorem acceptAccent_color {hex : List Char} (h : hex.length = 6 ∧ hex.all hexDigits.contains) :
    acceptAccent (.string (String.ofList ('#' :: hex))) =
      some (.string (String.ofList ('#' :: hex.map upperHex))) := by
  have hdefault : String.ofList ('#' :: hex) ≠ "default" := by
    intro heq
    have hchars := congrArg String.toList heq
    simp at hchars
  rw [acceptAccent, if_neg hdefault, String.toList_ofList]
  exact if_pos h

theorem acceptAccent_accept (h : acceptAccent v = some w) : acceptAccent w = some w := by
  cases v with
  | string text =>
    rw [acceptAccent] at h
    split at h
    · obtain rfl := Option.some.inj h
      simp_all [acceptAccent]
    · split at h
      · rename_i hex hchars
        rw [Option.ite_none_right_eq_some, Option.some.injEq] at h
        obtain ⟨hhex, rfl⟩ := h
        rw [acceptAccent_color, map_map]
        · refine congrArg (fun cs => some (Value.string (String.ofList
            ('#' :: cs)))) (map_congr_left fun c hc => ?_)
          exact (upperHex_contains (all_eq_true.mp hhex.2 c hc)).2
        · refine ⟨by simpa using hhex.1, all_eq_true.mpr fun c hc => ?_⟩
          obtain ⟨d, hd, rfl⟩ := mem_map.mp hc
          exact (upperHex_contains (all_eq_true.mp hhex.2 d hd)).1
      · cases h
  | _ => cases h

theorem wellFormed_acceptAccent (h : acceptAccent v = some w) : w.wellFormed = true := by
  cases v with
  | string text =>
    rw [acceptAccent] at h
    split at h
    · obtain rfl := Option.some.inj h
      rfl
    · split at h
      · rw [Option.ite_none_right_eq_some, Option.some.injEq] at h
        obtain ⟨-, rfl⟩ := h
        rfl
      · cases h
  | _ => cases h

/-- `Reader::choice` of the accent color. -/
def accent (sectionName key : String) : Setting where
  sectionName
  key
  fallback := .string "default"
  accept := acceptAccent
  accept_fallback := by decide
  accept_accept := acceptAccent_accept
  accept_same {v w} h := by
    cases v <;> cases w <;> simp_all [acceptAccent, same]
  wellFormed_accept := wellFormed_acceptAccent

/-- The elements of an array of strings, trimmed. -/
def trimmed (items : List Value) : Option (List String) :=
  items.mapM fun item => item.asStr.map trim

def acceptNames (names : List String) (mayBeEmpty : Bool) : Value → Option Value
  | .array items =>
    match trimmed items with
    | some order =>
      if (mayBeEmpty ∨ order ≠ []) ∧ order ⊆ names ∧ order.Nodup then
        some (.array (order.map .string))
      else none
    | none => none
  | _ => none

theorem asStr_of_same {x y : Value} (h : same x y = true) : x.asStr = y.asStr := by
  cases x <;> cases y <;> simp_all [same, Value.asStr]

theorem trimmed_of_same {xs ys : List Value}
    (h : List.Forall₂ (fun x y => same x y = true) xs ys) :
    trimmed xs = trimmed ys := by
  rw [trimmed, trimmed]
  induction h with
  | nil => rfl
  | cons hhead _ ih => rw [mapM_cons, mapM_cons, ih, asStr_of_same hhead]

theorem trimmed_strings (order : List String) :
    trimmed (order.map .string) = some (order.map trim) := by
  induction order with
  | nil => rfl
  | cons name rest ih =>
    rw [trimmed] at ih ⊢
    rw [map_cons, mapM_cons, ih]
    rfl

theorem acceptNames_eq_some (h : acceptNames names mayBeEmpty v = some w) :
    ∃ order : List String, ((mayBeEmpty ∨ order ≠ []) ∧ order ⊆ names ∧
      order.Nodup) ∧ w = .array (order.map .string) := by
  cases v with
  | array items =>
    rw [acceptNames] at h
    split at h
    · rename_i order _
      rw [Option.ite_none_right_eq_some, Option.some.injEq] at h
      exact ⟨order, h.1, h.2.symm⟩
    · cases h
  | _ => cases h

theorem acceptNames_strings (htrim : ∀ name ∈ names, trim name = name) {order : List String}
    (h : (mayBeEmpty ∨ order ≠ []) ∧ order ⊆ names ∧ order.Nodup) :
    acceptNames names mayBeEmpty (.array (order.map .string)) =
      some (.array (order.map .string)) := by
  have horder : order.map trim = order := by
    rw [map_congr_left (g := id) fun name hname => htrim name (h.2.1 hname), map_id]
  rw [acceptNames, trimmed_strings, horder]
  exact if_pos h

theorem acceptNames_same (h : same v w = true) :
    acceptNames names mayBeEmpty v = acceptNames names mayBeEmpty w := by
  cases v with
  | array xs =>
    cases w with
    | array ys =>
      rw [acceptNames, acceptNames, trimmed_of_same ((same_array_iff xs ys).mp h)]
    | _ => simp [same] at h
  | _ => cases w <;> simp_all [acceptNames, same]

/-- `Reader::auth_order` and `Reader::monitor_metrics`: known names, none
twice. -/
def someOf (names : List String) (mayBeEmpty : Bool) (sectionName key : String)
    (fallback : List String) (htrim : ∀ name ∈ names, trim name = name)
    (h : (mayBeEmpty ∨ fallback ≠ []) ∧ fallback ⊆ names ∧ fallback.Nodup) :
    Setting where
  sectionName
  key
  fallback := .array (fallback.map .string)
  accept := acceptNames names mayBeEmpty
  accept_fallback := acceptNames_strings htrim h
  accept_accept hv := by
    obtain ⟨order, horder, rfl⟩ := acceptNames_eq_some hv
    exact acceptNames_strings htrim horder
  accept_same := acceptNames_same
  wellFormed_accept hv := by
    obtain ⟨order, -, rfl⟩ := acceptNames_eq_some hv
    rw [wellFormed_array]
    intro value hvalue
    obtain ⟨name, -, rfl⟩ := List.mem_map.mp hvalue
    rfl

end Setting

def isLower (c : Char) : Bool := 'a' ≤ c && c ≤ 'z'

def isUpper (c : Char) : Bool := 'A' ≤ c && c ≤ 'Z'

def isDigit (c : Char) : Bool := '0' ≤ c && c ≤ '9'

/-- Whether `code` is an acceptable `general.language`. -/
def validLanguage (code : String) : Bool :=
  let isLanguage (lang : List Char) := 2 ≤ lang.length && lang.length ≤ 3 && lang.all isLower
  code == "system" || code == "pseudo" ||
    match code.toList.span (· ≠ '_') with
    | (lang, []) => isLanguage lang
    | (lang, _ :: region) =>
      isLanguage lang && region.length == 2 && region.all isUpper

/-- Whether `id` can name a theme, a profile or a highlight set. -/
def validId (id : String) : Bool :=
  match id.toList with
  | [] => false
  | first :: rest =>
    (isLower first || isDigit first) && rest.length + 1 ≤ 64 &&
      rest.all fun c => isLower c || isDigit c || c == '-' || c == '_' || c == '.'

def maxLockAfterMinutes : Int := 24 * 60

def maxKeepaliveSecs : Int := 3600

def maxParallelTransfers : Int := 16

def defaultAuthOrder : List String := ["publickey", "keyboard-interactive", "password"]

def monitorMetricNames : List String :=
  ["cpu", "memory", "network", "disk", "uptime", "load", "users"]

def defaultMonitorMetrics : List String := ["cpu", "memory", "network", "disk", "uptime"]

/-- The settings this version knows. -/
inductive Field where
  | language | onLastTabClosed | restoreSessions | confirmCloseWithSessions
  | checkForUpdates
  | theme | accent | density | uiScale | uiFont | reduceMotion | contrast
  | railPosition | railLabels | sidePanelPosition | tabsPosition
  | showStatusBar | windowDecorations
  | profile
  | lockAfterMinutes
  | backend | authOrder | keepaliveSecs | autoReconnect | detectOs | monitor
  | monitorIntervalSecs | monitorMetrics | sendLocale | log | logsDir
  | parallel | policy | preserveTimes | preservePermissions | showHidden
  | editorCommand | confirmDelete | followTerminal
deriving DecidableEq

namespace Field

open Setting in
/-- How each is read. -/
def setting : Field → Setting
  | .language => text validLanguage "general" "language" "system" (by decide)
  | .onLastTabClosed =>
    choice ["keep_window", "quit"] "general" "on_last_tab_closed" "keep_window" (by decide)
  | .restoreSessions => boolean "general" "restore_sessions" false
  | .confirmCloseWithSessions =>
    boolean "general" "confirm_close_with_sessions" true
  | .checkForUpdates => boolean "general" "check_for_updates" false
  | .theme =>
    choice ["system", "dark", "light"] "appearance" "theme" "system" (by decide)
  | .accent => Setting.accent "appearance" "accent"
  | .density =>
    choice ["comfortable", "compact"] "appearance" "density" "comfortable" (by decide)
  | .uiScale => scale "appearance" "ui_scale"
  | .uiFont => string "appearance" "ui_font" ""
  | .reduceMotion => boolean "appearance" "reduce_motion" false
  | .contrast =>
    choice ["system", "high", "standard"] "appearance" "contrast" "system" (by decide)
  | .railPosition =>
    choice ["left", "right", "hidden"] "appearance" "rail_position" "left" (by decide)
  | .railLabels => boolean "appearance" "rail_labels" false
  | .sidePanelPosition =>
    choice ["right", "left"] "appearance" "side_panel_position" "right" (by decide)
  | .tabsPosition =>
    choice ["title_bar", "below_title_bar"] "appearance" "tabs_position" "title_bar" (by decide)
  | .showStatusBar => boolean "appearance" "show_status_bar" true
  | .windowDecorations =>
    choice ["auto", "custom", "native", "none"] "appearance" "window_decorations" "auto" (by decide)
  | .profile => text validId "terminal" "profile" "default" (by decide)
  | .lockAfterMinutes =>
    whole 0 maxLockAfterMinutes "security" "lock_after_minutes" 15 (by decide)
  | .backend => choice ["internal", "openssh"] "ssh" "backend" "internal" (by decide)
  | .authOrder =>
    someOf defaultAuthOrder false "ssh" "auth_order" defaultAuthOrder (by decide) (by decide)
  | .keepaliveSecs => whole 0 maxKeepaliveSecs "ssh" "keepalive_secs" 30 (by decide)
  | .autoReconnect => boolean "ssh" "auto_reconnect" false
  | .detectOs => boolean "ssh" "detect_os" true
  | .monitor => boolean "ssh" "monitor" true
  -- Zero passes the bound and is refused after it.
  | .monitorIntervalSecs => whole 1 60 "ssh" "monitor_interval_secs" 3 (by decide)
  | .monitorMetrics =>
    someOf monitorMetricNames true "ssh" "monitor_metrics" defaultMonitorMetrics
      (by decide) (by decide)
  | .sendLocale => boolean "ssh" "send_locale" true
  | .log => choice ["off", "text", "raw"] "ssh" "log" "off" (by decide)
  | .logsDir => string "ssh" "logs_dir" ""
  | .parallel => whole 1 maxParallelTransfers "sftp" "parallel" 3 (by decide)
  | .policy =>
    choice ["ask", "overwrite", "newer", "resume", "skip", "rename"] "sftp"
      "policy" "ask" (by decide)
  | .preserveTimes => boolean "sftp" "preserve_times" true
  | .preservePermissions => boolean "sftp" "preserve_permissions" false
  | .showHidden => boolean "sftp" "show_hidden" false
  | .editorCommand => string "sftp" "editor_command" ""
  | .confirmDelete => boolean "sftp" "confirm_delete" true
  | .followTerminal => boolean "sftp" "follow_terminal" true

def all : List Field :=
  [.language, .onLastTabClosed, .restoreSessions, .confirmCloseWithSessions,
    .checkForUpdates, .theme, .accent, .density, .uiScale, .uiFont,
    .reduceMotion, .contrast, .railPosition, .railLabels, .sidePanelPosition,
    .tabsPosition, .showStatusBar, .windowDecorations, .profile,
    .lockAfterMinutes, .backend, .authOrder, .keepaliveSecs, .autoReconnect,
    .detectOs, .monitor, .monitorIntervalSecs, .monitorMetrics, .sendLocale,
    .log, .logsDir, .parallel, .policy, .preserveTimes, .preservePermissions,
    .showHidden, .editorCommand, .confirmDelete, .followTerminal]

theorem mem_all (field : Field) : field ∈ all := by
  cases field <;> decide

end Field

/-- The sections of settings, in the order they are read. -/
def sectionNames : List String := ["general", "appearance", "terminal", "security", "ssh", "sftp"]

theorem Field.sectionName_mem (field : Field) : field.setting.sectionName ∈ sectionNames := by
  cases field <;> decide

/-- No two settings stand in the same place. -/
theorem Field.places_nodup : (Field.all.map fun field =>
    (field.setting.sectionName, field.setting.key)).Nodup := by
  decide

end Opensesh
