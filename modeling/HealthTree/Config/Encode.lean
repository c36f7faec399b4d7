import HealthTree.Config.Vocabulary

/-!
# Configurations as data

A configuration is written whole: every section and every setting, defaults included.
-/

namespace HealthTree

/-- The data of what a service tells of itself. -/
def Observability.toData (o : Observability) : Data :=
  .map [("log_level", .str o.logLevel), ("log_format", .str o.logFormat.word),
    ("metrics_enabled", .bool o.metricsEnabled), ("metrics_address", .str o.metricsAddress)]

/-- The data of how often a service reports. -/
def Reporting.toData (r : Reporting) : Data :=
  .map [("interval_secs", .int r.interval.toNat), ("timeout_secs", .int r.timeout.toNat)]

namespace CheckSpec

mutual
/-- The data of a configured tree. -/
def toData : CheckSpec → Data
  | group name checks => .map [(Kind.key, .str Kind.group.word), (Part.name.key, .str name),
      (Part.checks.key, .list (listToData checks))]
  | cached interval check => .map [(Kind.key, .str Kind.cached.word),
      (Part.interval.key, .int interval.toNat), (Part.check.key, check.toData)]
  | debounced budget check => .map [(Kind.key, .str Kind.debounced.word),
      (Part.budget.key, .int budget.toNat), (Part.check.key, check.toData)]
  | fixed name status message => .map [(Kind.key, .str Kind.fixed.word),
      (Part.name.key, .str name), (Part.status.key, .str status.word),
      (Part.message.key, .str message)]
/-- The data of several trees. -/
def listToData : List CheckSpec → List Data
  | [] => []
  | c :: rest => c.toData :: listToData rest
end

end CheckSpec

/-- **The data of a configuration.** -/
def Config.toData (c : Config) : Data :=
  .map [("observability", c.observability.toData), ("report", c.reporting.toData),
    ("tree", c.tree.toData)]

end HealthTree
