import ExecHelper.Config.SettingsAdd
import ExecHelper.Config.SettingsReplace
import ExecHelper.Config.SettingsAssign
import ExecHelper.Config.SettingsEquality
import ExecHelper.Config.SettingsStore
import ExecHelper.Config.Envp
import ExecHelper.Yaml.YamlWrapper
import ExecHelper.Yaml.StrongGuarantee
import ExecHelper.Core.PosixShell
import ExecHelper.Core.TaskOperations
import ExecHelper.Core.Permutations
import ExecHelper.Plugins.CommandLineCommand
import ExecHelper.Plugins.CommandLineForms
import ExecHelper.Plugins.LuaConfig
import ExecHelper.Plugins.Substitution
import ExecHelper.Plugins.Variables
import ExecHelper.Plugins.Expansion
import ExecHelper.Commander.Commander
import ExecHelper.Applications.ExitStatus
import ExecHelper.Applications.PluginDiscovery
import ExecHelper.Applications.SettingsFile
import ExecHelper.Applications.SettingsPatterns
import ExecHelper.Applications.Environment
import ExecHelper.Plugins.WorkingDirectory
import ExecHelper.Plugins.PatternFrame
import ExecHelper.Plugins.ScriptOrder
import ExecHelper.Plugins.Coverage
import ExecHelper.Plugins.Wrappers
import ExecHelper.Applications.SettingsSearch
import ExecHelper.Applications.Jobs
import ExecHelper.Core.IteratorEquality
import ExecHelper.Core.PermutationIterator
import ExecHelper.Plugins.BundledScripts
import ExecHelper.Plugins.Locality
import ExecHelper.Plugins.Prepending
import ExecHelper.Applications.DryRun
import ExecHelper.Plugins.Handing
import ExecHelper.Plugins.Termination
import ExecHelper.Plugins.Definedness
import ExecHelper.Applications.Options
import ExecHelper.Applications.Inheritance
import ExecHelper.Applications.Termination
import ExecHelper.Applications.WellWritten
import ExecHelper.Applications.Main
import ExecHelper.Applications.Messages
