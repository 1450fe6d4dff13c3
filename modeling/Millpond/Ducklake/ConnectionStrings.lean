import Millpond.Lib.Quoting

set_option autoImplicit false

/-! # Connection strings

`connect` hands libpq a connection string inside a SQL literal, `_pg_direct_connect` one as it is. The
first leaves host and port unquoted. -/

namespace Millpond.Ducklake

/-- What an environment variable can hold. -/
structure EnvText where
  text : List Char
  noNul : '\x00' ∉ text

/-- `text.replace(old, new)`, for one character. -/
def replaceChar (old : Char) (new : List Char) (text : List Char) : List Char :=
  text.flatMap fun c => if c = old then new else [c]

/-- `_escape_libpq`. -/
def escapeLibpq : Option (List Char) → List Char
  | none => "''".toList
  | some value =>
      '\'' :: replaceChar '\'' ['\\', '\''] (replaceChar '\\' ['\\', '\\'] value) ++ ['\'']

/-- `name=value`. -/
def setting (name : String) (value : List Char) : List Char := name.toList ++ '=' :: value

/-- The part of `pg_connstr` that is not quoted. -/
def hostAndPort (host port : List Char) : List Char :=
  setting "host" host ++ ' ' :: setting "port" port ++ [' ']

/-- `pg_connstr` of `connect`. -/
def pgConnstr (host port : List Char) (database username password : Option (List Char)) : List Char :=
  hostAndPort host port ++
    (setting "dbname" (escapeLibpq database) ++ ' ' :: setting "user" (escapeLibpq username) ++
      ' ' :: setting "password" (escapeLibpq password))

def ducklakePrefix : List Char := "ducklake:postgres:".toList

/-- The `ATTACH` of `connect`, from the first character of its literal. -/
def attachLiteral (connstr dataPath : List Char) : List Char :=
  ducklakePrefix ++ replaceChar '\'' ['\'', '\''] connstr ++ '\'' ::
    (" AS lake (DATA_PATH '".toList ++ replaceChar '\'' ['\'', '\''] dataPath ++ "')".toList)

/-- The settings that libpq finds in the `ATTACH`, behind the prefix of the literal. -/
def attachSettings (connstr dataPath : List Char) : Option Conninfo.Settings :=
  (readLiteral (attachLiteral connstr dataPath)).bind fun r =>
    Conninfo.parse (r.1.drop ducklakePrefix.length)

def sessionOptions : List Char :=
  (" keepalives=1 keepalives_idle=60 keepalives_interval=10 keepalives_count=3 " ++
    "options='-c statement_timeout=600000'").toList

/-- `conninfo` of `_pg_direct_connect`. -/
def pgDirectConninfo (host port database username password applicationName : List Char) : List Char :=
  setting "host" (escapeLibpq host) ++ ' ' :: setting "port" (escapeLibpq port) ++
    ' ' :: setting "dbname" (escapeLibpq database) ++ ' ' :: setting "user" (escapeLibpq username) ++
    ' ' :: setting "password" (escapeLibpq password) ++
    ' ' :: setting "application_name" (escapeLibpq applicationName) ++
    sessionOptions

/-- The three settings of `connect` that come in quotes. -/
def quotedThree (database username password : List Char) : Conninfo.Settings :=
  [("dbname".toList, database), ("user".toList, username), ("password".toList, password)]

/-- The settings of `_pg_direct_connect`. -/
def directSettings (host port database username password applicationName : EnvText) :
    Conninfo.Settings :=
  [("host".toList, host.text), ("port".toList, port.text)] ++
    quotedThree database.text username.text password.text ++
    [("application_name".toList, applicationName.text), ("keepalives".toList, "1".toList),
      ("keepalives_idle".toList, "60".toList), ("keepalives_interval".toList, "10".toList),
      ("keepalives_count".toList, "3".toList), ("options".toList, "-c statement_timeout=600000".toList)]

/-- Database, user and password are read as they are, and no setting besides those that the code
    writes. -/
structure ConnectionStringsRead (host port : EnvText) : Prop where
  attach : ∀ (database username password : EnvText) (dataPath : List Char), ∃ h p,
    attachSettings (pgConnstr host.text port.text database.text username.text password.text) dataPath
      = some ([("host".toList, h), ("port".toList, p)] ++
          quotedThree database.text username.text password.text)
  direct : ∀ database username password applicationName : EnvText,
    Conninfo.parse (pgDirectConninfo host.text port.text database.text username.text password.text
        applicationName.text)
      = some (directSettings host port database username password applicationName)

/-- Host and port, unquoted, read as one setting each. -/
def HostAndPortRead (host port : EnvText) : Prop :=
  ∃ h p, Conninfo.start.read (hostAndPort host.text port.text)
    = some ⟨.between, [("host".toList, h), ("port".toList, p)]⟩

/-! ## Escaping -/

theorem escapeLibpq_some (value : List Char) :
    escapeLibpq (some value) = '\'' :: Conninfo.escaped value ++ ['\''] := by
  have hescaped : replaceChar '\'' ['\\', '\''] (replaceChar '\\' ['\\', '\\'] value)
      = Conninfo.escaped value := by
    unfold replaceChar Conninfo.escaped
    rw [List.flatMap_assoc]
    refine List.flatMap_congr fun c _ => ?_
    by_cases hback : c = '\\'
    · simp [hback]
    · by_cases hquote : c = '\'' <;> simp [hback, hquote]
  rw [escapeLibpq, hescaped]

theorem setting_escapeLibpq (name : String) (value : List Char) :
    setting name (escapeLibpq (some value)) = Conninfo.quotedSetting name.toList value := by
  simp only [setting, escapeLibpq_some, Conninfo.quotedSetting, List.append_assoc, List.cons_append]

theorem nul_notMem_escapeLibpq {value : List Char} (h : '\x00' ∉ value) :
    '\x00' ∉ escapeLibpq (some value) := by
  have hescaped : '\x00' ∉ Conninfo.escaped value := by
    intro hmem
    rcases Conninfo.mem_escaped hmem with hmem | hback
    · exact h hmem
    · exact absurd hback (by decide)
  rw [escapeLibpq_some]
  simp [hescaped]

/-! ## Reading -/

section Read

variable (host port database username password applicationName : EnvText)

/-- What `connect` writes after host and port. -/
theorem pgConnstr_eq (host port database username password : List Char) :
    pgConnstr host port database username password = hostAndPort host port ++
      (Conninfo.quotedSetting "dbname".toList database ++
        [("user".toList, username), ("password".toList, password)].flatMap fun p =>
          ' ' :: Conninfo.quotedSetting p.1 p.2) := by
  simp only [pgConnstr, setting_escapeLibpq, List.flatMap_cons, List.flatMap_nil, List.append_assoc,
    List.cons_append, List.append_nil]

theorem nul_notMem_pgConnstr : '\x00' ∉
    pgConnstr host.text port.text database.text username.text password.text := by
  simp [pgConnstr, hostAndPort, setting, host.noNul, port.noNul,
    nul_notMem_escapeLibpq database.noNul, nul_notMem_escapeLibpq username.noNul,
    nul_notMem_escapeLibpq password.noNul]

/-- The literal of the `ATTACH` is the connection string behind its prefix. -/
theorem attachSettings_eq (connstr dataPath : List Char) :
    attachSettings connstr dataPath = Conninfo.parse connstr := by
  have hdoubled : ducklakePrefix ++ replaceChar '\'' ['\'', '\''] connstr
      = doubledQuotes (ducklakePrefix ++ connstr) := by
    rw [doubledQuotes, List.flatMap_append]
    rfl
  have hrest : (" AS lake (DATA_PATH '".toList ++ replaceChar '\'' ['\'', '\''] dataPath
      ++ "')".toList).head? ≠ some '\'' := by
    have hhead : (" AS lake (DATA_PATH '".toList ++ replaceChar '\'' ['\'', '\''] dataPath
      ++ "')".toList).head? = some ' ' := rfl
    rw [hhead]
    decide
  rw [attachSettings, attachLiteral, hdoubled, readLiteral_doubled _ hrest, Option.bind_some,
    List.drop_left]

theorem read_connect {kvs : Conninfo.Settings}
    (h : Conninfo.start.read (hostAndPort host.text port.text) = some ⟨.between, kvs⟩) :
    Conninfo.parse (pgConnstr host.text port.text database.text username.text password.text)
      = some (kvs ++ quotedThree database.text username.text password.text) := by
  have hnames : ∀ p ∈ [("user".toList, username.text), ("password".toList, password.text)],
      p.1.all Conninfo.inName = true ∧ p.1 ≠ [] := by
    simp only [List.forall_mem_cons]
    decide
  rw [Conninfo.parse_of_noNul (nul_notMem_pgConnstr host port database username password),
    pgConnstr_eq, Conninfo.read_of_read h,
    Conninfo.read_of_read (Conninfo.read_quotedSetting (by decide) (by decide)),
    Conninfo.read_quotedSettings hnames]
  rw [List.append_assoc]
  rfl

theorem pgDirectConninfo_eq (host port database username password applicationName : List Char) :
    pgDirectConninfo host port database username password applicationName =
      Conninfo.quotedSetting "host".toList host ++
        (([("port".toList, port), ("dbname".toList, database), ("user".toList, username),
          ("password".toList, password), ("application_name".toList, applicationName)].flatMap fun p =>
            ' ' :: Conninfo.quotedSetting p.1 p.2) ++ sessionOptions) := by
  simp only [pgDirectConninfo, setting_escapeLibpq, List.flatMap_cons, List.flatMap_nil,
    List.append_assoc, List.cons_append, List.append_nil]

/-- `_pg_direct_connect` quotes host and port too. -/
theorem read_direct :
    Conninfo.parse (pgDirectConninfo host.text port.text database.text username.text password.text
        applicationName.text)
      = some (directSettings host port database username password applicationName) := by
  have hnul : '\x00' ∉ pgDirectConninfo host.text port.text database.text username.text password.text
      applicationName.text := by
    have hoptions : '\x00' ∉ sessionOptions := by decide +kernel
    simp [hoptions, pgDirectConninfo, setting, nul_notMem_escapeLibpq host.noNul,
      nul_notMem_escapeLibpq port.noNul, nul_notMem_escapeLibpq database.noNul, nul_notMem_escapeLibpq username.noNul,
      nul_notMem_escapeLibpq password.noNul, nul_notMem_escapeLibpq applicationName.noNul]
  have hnames : ∀ p ∈ [("port".toList, port.text), ("dbname".toList, database.text),
      ("user".toList, username.text), ("password".toList, password.text),
      ("application_name".toList, applicationName.text)],
      p.1.all Conninfo.inName = true ∧ p.1 ≠ [] := by
    simp only [List.forall_mem_cons]
    decide
  rw [Conninfo.parse_of_noNul hnul, pgDirectConninfo_eq, Conninfo.start,
    Conninfo.read_of_read (Conninfo.read_quotedSetting (by decide) (by decide)),
    Conninfo.read_of_read (Conninfo.read_quotedSettings hnames)]
  rfl

end Read

/-! ## Host and port -/

/-- A value that reads as itself. -/
def someText : EnvText := ⟨['x'], by decide⟩

theorem position_of_hostAndPort {host port : List Char} {r : Conninfo.Reader}
    (h : Conninfo.start.read (hostAndPort host port) = some r) :
    r.position = .between ∨ (∃ n, r.position = .equals n) ∨ (∃ n, r.position = .value n) ∨
      (∃ n t, r.position = .plain n t) ∨ ∃ n t, r.position = .quoted n t := by
  rw [hostAndPort, Conninfo.read_append] at h
  obtain ⟨q, -, hlast⟩ := Option.bind_eq_some_iff.1 h
  rw [Conninfo.read_cons] at hlast
  obtain ⟨r', hstep, heq⟩ := Option.bind_eq_some_iff.1 hlast
  obtain rfl := Option.some.inj heq
  exact Conninfo.position_of_blank hstep

/-- What follows host and port, as words. -/
def someSettings : List Char := "dbname='x'".toList ++ " user='x' password='x'".toList

theorem someSettings_eq : (Conninfo.quotedSetting "dbname".toList someText.text ++
    [("user".toList, someText.text), ("password".toList, someText.text)].flatMap fun p =>
      ' ' :: Conninfo.quotedSetting p.1 p.2) = someSettings := by decide

/-- Read as the rest of a word, the first of them stays in the value that was begun. -/
theorem read_someSettings (settings : Conninfo.Settings) (n t : List Char) :
    (Conninfo.Reader.read ⟨.plain n t, settings⟩ someSettings).bind Conninfo.Reader.finish
      = some (settings ++ [(n, t ++ "dbname='x'".toList)] ++ [("user".toList, ['x'])] ++
          [("password".toList, ['x'])]) := by
  have hword : Conninfo.Reader.read ⟨.plain n t, settings⟩ "dbname='x'".toList
      = some ⟨.plain n (t ++ "dbname='x'".toList), settings⟩ := Conninfo.read_word (by decide) t
  have hrest : Conninfo.Reader.read ⟨.plain n t, settings⟩ someSettings
      = Conninfo.Reader.read ⟨.plain n (t ++ "dbname='x'".toList), settings⟩
          " user='x' password='x'".toList := Conninfo.read_of_read hword _
  rw [hrest]
  rfl

/-- A database that is read with other text before or around it is not read. -/
theorem value_ne {settings : Conninfo.Settings} {n v h p : List Char} (hv : 1 < v.length) :
    settings ++ [(n, v)] ++ [("user".toList, ['x'])] ++ [("password".toList, ['x'])] ≠
      [("host".toList, h), ("port".toList, p)] ++ quotedThree ['x'] ['x'] ['x'] := by
  intro heq
  rw [List.append_assoc, List.append_assoc] at heq
  have hlast := List.append_inj_right' heq rfl
  have hpair : (n, v) = ("dbname".toList, ['x']) := (List.cons.inj hlast).1
  rw [(Prod.mk.inj hpair).2] at hv
  exact absurd hv (by decide)

/-- Where host and port do not end a setting, the database is not read. -/
theorem hostAndPort_between {host port : EnvText} {h p : List Char}
    (hparse : Conninfo.parse (pgConnstr host.text port.text someText.text someText.text someText.text)
      = some ([("host".toList, h), ("port".toList, p)] ++ quotedThree ['x'] ['x'] ['x'])) :
    HostAndPortRead host port := by
  have hread := hparse
  rw [Conninfo.parse_of_noNul (nul_notMem_pgConnstr host port someText someText someText),
    pgConnstr_eq, Conninfo.read_append, someSettings_eq] at hread
  have hlength : ∀ t, 1 < (t ++ "dbname='x'".toList).length := by
    intro t
    rw [List.length_append]
    exact Nat.lt_add_left _ (by decide)
  cases hread' : Conninfo.start.read (hostAndPort host.text port.text) with
  | none =>
      rw [hread'] at hread
      cases hread
  | some r =>
      have hposition := position_of_hostAndPort hread'
      rw [hread', Option.bind_some] at hread
      obtain ⟨position, settings⟩ := r
      dsimp only at hposition
      rcases hposition with rfl | ⟨n, rfl⟩ | ⟨n, rfl⟩ | ⟨n, t, rfl⟩ | ⟨n, t, rfl⟩
      · have hthree := read_connect host port someText someText someText hread'
        have hsettings := Option.some.inj (hthree.symm.trans hparse)
        exact ⟨h, p, by rw [hread', List.append_cancel_right hsettings]⟩
      · cases hread
      · have hfirst : Conninfo.Reader.read ⟨.value n, settings⟩ someSettings
            = Conninfo.Reader.read ⟨.plain n [], settings⟩ someSettings := rfl
        rw [hfirst, read_someSettings] at hread
        exact absurd (Option.some.inj hread) (value_ne (hlength []))
      · rw [read_someSettings] at hread
        exact absurd (Option.some.inj hread) (value_ne (hlength t))
      · cases hread

/-- A value that needs no quotes. -/
def isWord (text : List Char) : Bool :=
  text.head?.any (· != '\'') && text.all Conninfo.inWord

theorem read_word {name : String} {value : List Char} {settings : Conninfo.Settings}
    (hname : name.toList.all Conninfo.inName = true) (hne : name.toList ≠ []) (h : isWord value = true) :
    Conninfo.Reader.read ⟨.between, settings⟩ (setting name value ++ [' '])
      = some ⟨.between, settings ++ [(name.toList, value)]⟩ := by
  obtain ⟨hhead, hall⟩ := Bool.and_eq_true_iff.1 h
  cases value with
  | nil => cases hhead
  | cons c rest => exact Conninfo.read_wordSetting hname hne (bne_iff_ne.1 hhead) hall

/-- A host and a port that need no quotes are read. -/
theorem hostAndPortRead_of_words {host port : EnvText} (hhost : isWord host.text = true)
    (hport : isWord port.text = true) : HostAndPortRead host port := by
  refine ⟨host.text, port.text, ?_⟩
  have hsplit : hostAndPort host.text port.text
      = (setting "host" host.text ++ [' ']) ++ (setting "port" port.text ++ [' ']) := by
    simp [hostAndPort]
  rw [hsplit, Conninfo.start, Conninfo.read_of_read (read_word (by decide) (by decide) hhost),
    read_word (by decide) (by decide) hport]
  rfl

/-- Database, user and password are read as they are for all of them exactly if host and port are one
    setting each. -/
theorem connectionStringsRead_iff (host port : EnvText) :
    ConnectionStringsRead host port ↔ HostAndPortRead host port := by
  constructor
  · intro hread
    obtain ⟨h, p, hsettings⟩ := hread.attach someText someText someText []
    rw [attachSettings_eq] at hsettings
    exact hostAndPort_between hsettings
  · rintro ⟨h, p, hread⟩
    constructor
    · intro database username password dataPath
      refine ⟨h, p, ?_⟩
      rw [attachSettings_eq, read_connect host port database username password hread]
    · exact read_direct host port

def someHost : EnvText := ⟨"db".toList, by decide⟩

def noPort : EnvText := ⟨[], by decide⟩

/-- Without a port the database is read as the port, and there is none. -/
theorem noPort_readsDatabase :
    attachSettings (pgConnstr someHost.text noPort.text someText.text someText.text someText.text) []
        = some [("host".toList, "db".toList), ("port".toList, "dbname='x'".toList),
            ("user".toList, ['x']), ("password".toList, ['x'])] ∧
      ¬ConnectionStringsRead someHost noPort := by
  have hsettings : attachSettings
      (pgConnstr someHost.text noPort.text someText.text someText.text someText.text) []
        = some [("host".toList, "db".toList), ("port".toList, "dbname='x'".toList),
            ("user".toList, ['x']), ("password".toList, ['x'])] := by decide
  refine ⟨hsettings, fun hread => ?_⟩
  obtain ⟨h, p, hsome⟩ := hread.attach someText someText someText []
  have hlength : 4 = 5 := congrArg List.length (Option.some.inj (hsettings.symm.trans hsome))
  exact absurd hlength (by decide)

end Millpond.Ducklake
