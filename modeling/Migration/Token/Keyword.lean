/-
  The words of the source dialect that are never names: its reserved words and a
  few more that stand in keyword position in module bodies.
-/

namespace Migration

def keywords : List String :=
  ["add", "all", "alter", "and", "any", "apply", "as", "asc", "authorization", "backup", "begin",
   "between", "break", "browse", "bulk", "by", "cascade", "case", "cast", "check", "checkpoint",
   "close", "clustered", "coalesce", "collate", "column", "commit", "compute", "constraint",
   "contains", "containstable", "continue", "convert", "create", "cross", "current", "current_date",
   "current_time", "current_timestamp", "current_user", "cursor", "database", "dbcc", "deallocate",
   "declare", "default", "delete", "deny", "desc", "disk", "distinct", "distributed", "double",
   "drop", "dump", "else", "end", "errlvl", "escape", "except", "exec", "execute", "exists", "exit",
   "external", "fetch", "file", "fillfactor", "for", "foreign", "freetext", "freetexttable", "from",
   "full", "function", "goto", "grant", "group", "having", "holdlock", "identity",
   "identity_insert", "identitycol", "if", "in", "index", "inner", "insert", "intersect", "into",
   "is", "join", "key", "kill", "left", "like", "lineno", "load", "merge", "national", "next",
   "nocheck", "nocount", "nonclustered", "not", "null", "nullif", "of", "off", "offset", "offsets",
   "on", "only", "open", "opendatasource", "openquery", "openrowset", "openxml", "option", "or",
   "order", "outer", "output", "over", "partition", "percent", "pivot", "plan", "precision",
   "primary", "print", "proc", "procedure", "public", "raiserror", "read", "readtext",
   "reconfigure", "references", "replication", "restore", "restrict", "return", "returns", "revert",
   "revoke", "right", "rollback", "rowcount", "rows", "rowguidcol", "rule", "save", "schema",
   "securityaudit", "select", "session_user", "set", "setuser", "shutdown", "some", "statistics",
   "system_user", "table", "tablesample", "textsize", "then", "to", "top", "tran", "transaction",
   "trigger", "truncate", "try_convert", "tsequal", "union", "unique", "unpivot", "update",
   "updatetext", "use", "user", "values", "varying", "view", "waitfor", "when", "where", "while",
   "with", "within", "writetext"]

/-- Whether the word is a keyword, in any mix of ASCII cases. -/
def isKeyword (word : String) : Bool :=
  keywords.contains (String.ofList (word.toList.map Char.toLower))

end Migration
