import ChaosBundle.Library.Runs
import ChaosBundle.Library.Progress
import ChaosBundle.Library.Products
import ChaosBundle.Library.FileSystem
import ChaosBundle.Library.Glob
import ChaosBundle.Library.DecimalFields
import ChaosBundle.Library.ShellWords
import ChaosBundle.Library.Directory
import ChaosBundle.Library.Ere
import ChaosBundle.Library.ListFacts
import ChaosBundle.Library.Location
import ChaosBundle.Library.Numerals
import ChaosBundle.Library.BcNumber
import ChaosBundle.Library.BcProgram
import ChaosBundle.Library.TextLines
import ChaosBundle.Library.CInt
import ChaosBundle.Library.Pathnames
import ChaosBundle.Library.Getopts
import ChaosBundle.Library.CString
import ChaosBundle.Library.Replace
import ChaosBundle.Library.ReadLine
import ChaosBundle.Library.GuardedScripts
import ChaosBundle.Library.Sed
import ChaosBundle.Package.Host
import ChaosBundle.Package.MaintainerScripts
import ChaosBundle.Package.ScriptEffects
import ChaosBundle.Package.Dpkg
import ChaosBundle.Package.Upgrade
import ChaosBundle.Package.Removal
import ChaosBundle.Package.DefaultSite
import ChaosBundle.Package.Retry
import ChaosBundle.Package.Services
import ChaosBundle.Gitlab.AcceptMergeRequest
import ChaosBundle.Gitlab.Interleaving
import ChaosBundle.Gitlab.RepeatedCalls
import ChaosBundle.Startup.WaitFor
import ChaosBundle.Startup.DbInit
import ChaosBundle.LocalServices.Pairs
import ChaosBundle.LocalServices.DatasetNames
import ChaosBundle.LocalServices.Sensors
import ChaosBundle.LocalServices.SensorsContent
import ChaosBundle.LocalServices.History
import ChaosBundle.LocalServices.BasicCore
import ChaosBundle.LocalServices.Suite
import ChaosBundle.LocalServices.PowerSupplyLogs
import ChaosBundle.LocalServices.PowerSupply
import ChaosBundle.LocalServices.PowerSupplyCounts
import ChaosBundle.LocalServices.PowerSupplyKept
import ChaosBundle.LocalServices.PowerSupplyEnd
import ChaosBundle.Launch.PidFiles
import ChaosBundle.Launch.PlainNames
import ChaosBundle.Launch.SingleInstance
import ChaosBundle.Launch.ForeignProcesses
import ChaosBundle.Launch.Overlap
import ChaosBundle.Launch.OverlapInstances
import ChaosBundle.Launch.Serial
import ChaosBundle.Csv.Cell
import ChaosBundle.Csv.Quotient
import ChaosBundle.Csv.Average
import ChaosBundle.Csv.AverageRows
import ChaosBundle.Csv.AverageAgain
import ChaosBundle.Csv.AverageBetween
import ChaosBundle.Configuration.Monitoring
import ChaosBundle.Benchmark.TestIo
import ChaosBundle.Benchmark.Calls
import ChaosBundle.Benchmark.PingBandwidth
import ChaosBundle.Benchmark.BenchmarkLocal
import ChaosBundle.Webgui.Install
import ChaosBundle.Webgui.Prompts
import ChaosBundle.Webgui.Reinstall
import ChaosBundle.Template.Driver
import ChaosBundle.Template.FireCommand
import ChaosBundle.Template.RandomValue
import ChaosBundle.Template.Client
import ChaosBundle.Template.ClientSession
import ChaosBundle.Template.ClientMain
import ChaosBundle.Template.InstallHeaders
import ChaosBundle.Template.ProjectTree
import ChaosBundle.Template.EchoUnit
